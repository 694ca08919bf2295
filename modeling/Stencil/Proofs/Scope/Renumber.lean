/-
Stencil/Proofs/Scope/Renumber.lean

Deep copies of contexts whose values are graphs of lists, dictionaries and
tuples.  All bindings share one memo, and no copy fails, so the whole copy is the
context with new numbers for its objects (`copyWith_deepCopy_renumbered`): what
is shared in a value, between values and between frames is shared in the copy,
and nothing that can be changed is shared by the two.
-/
import Mathlib.Data.Set.Function
import Stencil.Proofs.Value.Renumber

namespace Stencil

variable {h h' : Heap} {s s' : Copying} {c d : Context Value} {i j : Nat}

/-! ### Contexts -/

/-- The frame with other numbers for objects. -/
def Frame.renumber (g : Nat → Nat) (f : Frame Value) : Frame Value :=
  ⟨f.entries.map fun e => (e.1, e.2.renumber g)⟩

/-- A way to a value: a frame, counted from the innermost, a binding in it, and at each object which
part comes next. -/
structure Access where
  frame : Nat
  binding : Nat
  path : List Nat

namespace Context

/-- The context with other numbers for objects. -/
def renumber (g : Nat → Nat) (c : Context Value) : Context Value :=
  ⟨c.innermost.renumber g, c.outer.map (Frame.renumber g)⟩

theorem inward_renumber (g : Nat → Nat) (c : Context Value) :
    (c.renumber g).inward = c.inward.map (Frame.renumber g) := rfl

theorem Matches.eq_renumber {g : Nat → Nat} (m : c.Matches (fun v w => w = v.renumber g) d) :
    d = c.renumber g := by
  have hentries : ∀ {es es' : List (Name × Value)},
      List.Forall₂ (fun e e' => e'.1 = e.1 ∧ e'.2 = e.2.renumber g) es es' →
        es' = es.map fun e => (e.1, e.2.renumber g) := by
    intro es es' hes
    induction hes with
    | nil => rfl
    | cons he _ ih => rw [List.map_cons, ← ih, ← he.1, ← he.2]
  have hframes : ∀ {fs fs' : List (Frame Value)},
      List.Forall₂ (fun f f' => List.Forall₂
        (fun e e' => e'.1 = e.1 ∧ e'.2 = e.2.renumber g) f.entries f'.entries) fs fs' →
        fs' = fs.map (Frame.renumber g) := by
    intro fs fs' hfs
    induction hfs with
    | nil => rfl
    | cons hf _ ih => rw [List.map_cons, ← ih, Frame.renumber, ← hentries hf]
  have hinward := hframes m
  rw [← inward_renumber] at hinward
  obtain ⟨hinner, houter⟩ := List.cons.inj hinward
  rcases d with ⟨inner, outer⟩
  rw [show inner = c.innermost.renumber g from hinner,
    show outer = c.outer.map (Frame.renumber g) from houter]
  rfl

/-- The object is reached from a value that is bound. -/
def Reaches (h : Heap) (c : Context Value) (i : Nat) : Prop :=
  ∃ f ∈ c.inward, ∃ e ∈ f.entries, h.Reaches e.2 i

theorem reaches_renumber {g : Nat → Nat} :
    (c.renumber g).Reaches h j ↔
      ∃ f ∈ c.inward, ∃ e ∈ f.entries, h.Reaches (e.2.renumber g) j := by
  simp [Reaches, inward_renumber, Frame.renumber]

/-- All values that are bound are graphs. -/
def Graph (h : Heap) (c : Context Value) : Prop := ∀ f ∈ c.inward, ∀ e ∈ f.entries, h.Graph e.2

/-- The value that is accessed. -/
def follow (h : Heap) (c : Context Value) (a : Access) : Option Value := do
  let f ← c.inward[a.frame]?
  let e ← f.entries[a.binding]?
  h.follow e.2 a.path

theorem reaches_of_follow {a : Access} (e : c.follow h a = some (.object i)) : c.Reaches h i := by
  obtain ⟨f, hf, e⟩ := Option.bind_eq_some_iff.mp e
  obtain ⟨x, hx, e⟩ := Option.bind_eq_some_iff.mp e
  exact ⟨f, List.mem_of_getElem? hf, x, List.mem_of_getElem? hx, Heap.reaches_of_follow e⟩

/-- Two accesses come to the same list or dictionary. -/
def Meets (h : Heap) (c : Context Value) (a b : Access) : Prop :=
  ∃ i, h.Mutable i ∧ c.follow h a = some (.object i) ∧ c.follow h b = some (.object i)

/-- The context `d` of the heap `h'` is the context `c` of the heap `h` with new numbers. -/
structure Renumbered (g : Nat → Nat) (h h' : Heap) (c d : Context Value) : Prop where
  /-- The same names are bound in the same order, to the values with new numbers. -/
  bindings : d = c.renumber g
  /-- What is found under a new number is of the same type, with the same contents in the same
  order. -/
  objects : ∀ i, c.Reaches h i → ∃ o, h.get? i = some o ∧ h'.get? (g i) = some (o.renumber g)
  /-- The numbers of lists and dictionaries are one to one. -/
  mutables : Set.BijOn g {i | c.Reaches h i ∧ h.Mutable i} {j | d.Reaches h' j ∧ h'.Mutable j}
  /-- An access comes to the same, up to the numbers. -/
  accesses : ∀ a, d.follow h' a = (c.follow h a).map (·.renumber g)
  meets : ∀ a b, d.Meets h' a b ↔ c.Meets h a b
  /-- No list or dictionary of the one is reached from the other. -/
  apart : ∀ j, d.Reaches h' j → h'.Mutable j → ¬ c.Reaches h' j

end Context

/-! ### Copies -/

namespace Copying

/-- The originals reach only what was there. -/
theorem Intact.reaches_lt (hs : Intact h s) (sound : h.Sound) {v : Value} (hv : h.Closed v)
    (r : s.heap.Reaches v j) : j < h.objects.size := by
  induction r with
  | self i => exact hv
  | @part i _ o p e hp _ ih => exact ih (sound.closed i o ((hs.originals i hv).symm.trans e) p hp)
  | cycle _ ih => exact ih hv

/-- Clones of graphs. -/
theorem cloning_whole (sound : h.Sound) :
    Cloning deepCopy recordSharing (fun _ v => h.Graph v) (Whole h) (Step h none True)
      (fun s v w => h.Graph v ∧ w = image s.memo v ∧ Settled h s.memo v) where
  refl _ w := .refl w.underway
  trans _ _ _ st st' := st.trans st' id id nofun
  keeps _ _ _ _ st good :=
    ⟨good.1, good.2.1.trans (st.image_eq good.2.2).symm, st.settled good.2.2⟩
  clones n v s graph w := by
    obtain ⟨u, s', e⟩ := exec_deepCopy_ok graph w.underway.intact
    have hdeep : (deepCopy v).exec s = (deepCopyIn s.heap.deepest v).exec s := by
      rw [deepCopy, Run.exec_get_bind]
    obtain ⟨st, good⟩ := (copies_deepCopyIn sound s.heap.deepest v s graph.made.closed
      w.underway).ok u s' (hdeep ▸ e)
    exact ⟨u, s', Run.exec_catching_ok e, st, w.step st, graph, good⟩

namespace Whole

variable (w : Whole h s)
include w

/-- When all values that are bound are settled, the context with their images is the one with new
numbers. -/
theorem renumbered (sound : h.Sound) (graph : c.Graph h)
    (hsettled : ∀ f ∈ c.inward, ∀ e ∈ f.entries, Settled h s.memo e.2) :
    c.Renumbered (numberOf s.memo) h s.heap (c.renumber (numberOf s.memo)) := by
  let g := numberOf s.memo
  have hobject : ∀ i, c.Reaches h i → i < h.objects.size ∧ Settled h s.memo (.object i) ∧
      ∃ o, h.get? i = some o ∧ s.heap.get? (g i) = some (o.renumber g) := by
    rintro i ⟨f, hf, e, he, r⟩
    have hs := w.settled_of_reaches (graph f hf e he) (hsettled f hf e he) r
    have hg := (graph f hf e he).reached r
    have hi : i < h.objects.size := hg.made.closed
    obtain ⟨o, ho⟩ := Table.exists_get? hi
    exact ⟨hi, hs, o, ho, (w.get?_numberOf hg hs ho).1⟩
  have hmutable : ∀ i, c.Reaches h i → (s.heap.Mutable (g i) ↔ h.Mutable i) := by
    intro i r
    obtain ⟨-, -, o, ho, ho'⟩ := hobject i r
    rw [Heap.Mutable, Heap.Mutable, ho, ho']
    simp
  have hreaches : ∀ i, c.Reaches h i → (c.renumber g).Reaches s.heap (g i) := by
    rintro i ⟨f, hf, e, he, r⟩
    exact Context.reaches_renumber.mpr
      ⟨f, hf, e, he, w.reaches_renumber (graph f hf e he) (hsettled f hf e he) r⟩
  have hexists : ∀ j, (c.renumber g).Reaches s.heap j → ∃ i, c.Reaches h i ∧ g i = j := by
    intro j r
    obtain ⟨f, hf, e, he, r⟩ := Context.reaches_renumber.mp r
    obtain ⟨i, r, hi⟩ := w.exists_of_reaches (graph f hf e he) (hsettled f hf e he) r
    exact ⟨i, ⟨f, hf, e, he, r⟩, hi⟩
  have hinj : ∀ i k, c.Reaches h i → c.Reaches h k → g i = g k → i = k := fun i k r r' =>
    w.numberOf_inj (hobject i r).1 (hobject k r').1
  have haccesses : ∀ a, (c.renumber g).follow s.heap a = (c.follow h a).map (·.renumber g) := by
    intro a
    rw [Context.follow, Context.follow, Context.inward_renumber, List.getElem?_map]
    rcases hf : c.inward[a.frame]? with - | f
    · rfl
    · show ((f.renumber g).entries[a.binding]?.bind _) = (f.entries[a.binding]?.bind _).map _
      rw [Frame.renumber, List.getElem?_map]
      rcases he : f.entries[a.binding]? with - | e
      · rfl
      · exact w.follow_renumber (graph f (List.mem_of_getElem? hf) e (List.mem_of_getElem? he))
          (hsettled f (List.mem_of_getElem? hf) e (List.mem_of_getElem? he)) a.path
  constructor
  case bindings => rfl
  case objects => exact fun i r => (hobject i r).2.2
  case mutables =>
    refine ⟨fun i hi => ⟨hreaches i hi.1, (hmutable i hi.1).mpr hi.2⟩,
      fun i hi k hk e => hinj i k hi.1 hk.1 e, fun j hj => ?_⟩
    obtain ⟨i, r, rfl⟩ := hexists j hj.1
    exact ⟨i, ⟨r, (hmutable i r).mp hj.2⟩, rfl⟩
  case accesses => exact haccesses
  case meets =>
    intro a b
    -- what an access to the copy comes to, the access to the original comes to before
    have hback : ∀ a j, (c.renumber g).follow s.heap a = some (.object j) →
        ∃ i, c.follow h a = some (.object i) ∧ g i = j := by
      intro a j e
      rw [haccesses a] at e
      obtain ⟨v, hv, e⟩ := Option.map_eq_some_iff.mp e
      cases v with
      | object i => exact ⟨i, hv, Value.object.inj e⟩
      | atom _ | method _ _ => cases e
    constructor
    · rintro ⟨j, hj, ea, eb⟩
      obtain ⟨i, hi, rfl⟩ := hback a j ea
      obtain ⟨k, hk, e⟩ := hback b _ eb
      have hr := Context.reaches_of_follow hi
      obtain rfl := hinj k i (Context.reaches_of_follow hk) hr e
      exact ⟨k, (hmutable k hr).mp hj, hi, hk⟩
    · rintro ⟨i, hi, ea, eb⟩
      refine ⟨g i, (hmutable i (Context.reaches_of_follow ea)).mpr hi, ?_, ?_⟩
      · rw [haccesses a, ea]
        rfl
      · rw [haccesses b, eb]
        rfl
  case apart =>
    rintro j r hj ⟨f, hf, e, he, r'⟩
    obtain ⟨i, ri, rfl⟩ := hexists j r
    have hnew := w.le_numberOf (hobject i ri).2.1 ((hmutable i ri).mp hj)
    have hold := w.underway.intact.reaches_lt sound (graph f hf e he).made.closed r'
    exact absurd hold (Nat.not_lt.mpr hnew)

end Whole

end Copying

open Copying in
/-- A deep copy of a context whose values are graphs is the context with new numbers for objects. -/
theorem copyWith_deepCopy_renumbered (h : Heap) (c : Context Value) (sound : h.Sound)
    (graph : c.Graph h) :
    ∃ copy s g, (c.copyWith deepCopy recordSharing).exec ⟨h, [], [], []⟩ = (.ok copy, s) ∧
      (∀ i, i < h.objects.size → s.heap.get? i = h.get? i) ∧
      c.Renumbered g h s.heap copy := by
  obtain ⟨copy, s, e, -, w, hmatches⟩ := (cloning_whole sound).context graph (.start h)
  have hsettled := hmatches.forall_left fun v u good => good.2.2
  have hcopy : c.Matches (fun v u => u = v.renumber (numberOf s.memo)) copy :=
    hmatches.imp fun _ _ hf => hf.imp fun x y hxy => by
      obtain ⟨hname, hgraph, himage, -⟩ := hxy
      exact ⟨hname, himage.trans (w.underway.image_eq_renumber hgraph.made.isMethod)⟩
  refine ⟨copy, s, numberOf s.memo, e, w.underway.originals, ?_⟩
  rw [hcopy.eq_renumber]
  exact w.renumbered sound graph hsettled

open Copying in
/-- A list that is inside itself, also through a tuple, and is bound in two frames, once inside a
dictionary. -/
theorem copyWith_deepCopy_renumbered_cyclic :
    let h : Heap := ⟨⟨#[.list [.object 0, .object 1], .tuple [.int 1, .object 0],
      .tuple [.int 7], .dict [(.str "k", .object 0)]]⟩, 0⟩
    let c : Context Value := ⟨.ofNamed [("a", .object 3), ("t", .object 2)],
      [.ofNamed [("a", .object 0)]]⟩
    h.Sound ∧ c.Graph h ∧
      ∃ copy s g, (c.copyWith deepCopy recordSharing).exec ⟨h, [], [], []⟩ = (.ok copy, s) ∧
        (∀ i, i < h.objects.size → s.heap.get? i = h.get? i) ∧ c.Renumbered g h s.heap copy := by
  intro h c
  have hobjects : ∀ i o, h.get? i = some o →
      o = .list [.object 0, .object 1] ∨ o = .tuple [.int 1, .object 0] ∨ o = .tuple [.int 7] ∨
        o = .dict [(.str "k", .object 0)] := by
    intro i o e
    match i with
    | 0 => exact .inl (Option.some.inj e).symm
    | 1 => exact .inr (.inl (Option.some.inj e).symm)
    | 2 => exact .inr (.inr (.inl (Option.some.inj e).symm))
    | 3 => exact .inr (.inr (.inr (Option.some.inj e).symm))
    | _ + 4 => cases e
  have hmade₀ : h.Made (.object 0) := .mutable rfl rfl
  have hmade₁ : h.Made (.object 1) := .tuple rfl fun v hv => by
    rcases List.mem_pair.mp hv with rfl | rfl
    · exact .atom _
    · exact hmade₀
  have hparts : ∀ i o, h.get? i = some o → ∀ p ∈ o.parts, h.Made p := by
    intro i o e p hp
    rcases hobjects i o e with rfl | rfl | rfl | rfl
    · rcases List.mem_pair.mp hp with rfl | rfl
      · exact hmade₀
      · exact hmade₁
    · rcases List.mem_pair.mp hp with rfl | rfl
      · exact .atom _
      · exact hmade₀
    · obtain rfl := List.mem_singleton.mp hp
      exact .atom _
    · rcases List.mem_pair.mp hp with rfl | rfl
      · exact .atom _
      · exact hmade₀
  have hdict : ∀ i es, h.get? i = some (.dict es) → es = [(.str "k", .object 0)] := by
    intro i es e
    rcases hobjects i _ e with h | h | h | h
    · cases h
    · cases h
    · cases h
    · exact Object.dict.inj h
  have sound : h.Sound := by
    refine ⟨fun i o e p hp => (hparts i o e p hp).closed, fun i es e x hx => ?_, fun i es e => ?_⟩
    · obtain rfl := hdict i es e
      obtain rfl := List.mem_singleton.mp hx
      exact fun depth => by cases depth <;> rfl
    · obtain rfl := hdict i es e
      exact List.pairwise_singleton ..
  have hgraph : ∀ {v}, h.Made v → h.Graph v := fun made =>
    ⟨made, fun i o _ e p hp => hparts i o e p hp⟩
  have graph : c.Graph h := by
    intro f hf e he
    rcases List.mem_pair.mp hf with rfl | rfl
    · rcases List.mem_pair.mp he with rfl | rfl
      · exact hgraph (.mutable rfl rfl)
      · refine hgraph (.tuple rfl fun v hv => ?_)
        obtain rfl := List.mem_singleton.mp hv
        exact .atom _
    · obtain rfl := List.mem_singleton.mp he
      exact hgraph hmade₀
  exact ⟨sound, graph, copyWith_deepCopy_renumbered h c sound graph⟩

end Stencil
