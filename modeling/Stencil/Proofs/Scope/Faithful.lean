/-
Stencil/Proofs/Scope/Faithful.lean

How faithful deep copies of contexts are.  The copies of all bindings share one
memo.  When a value cannot be copied it is shared, and what was copied of it
before that stays in the memo, with parts missing.  A value that reaches such
an object, and is copied later, gets the unfinished copy; every other value is
shared, or copied whole (`copyWith_deepCopy_faithful`).
-/
import Stencil.Proofs.Scope.Copy
import Stencil.Proofs.Value.Copy
import Stencil.Render.Reclaim

namespace Stencil

variable {h : Heap} {s s' s'' : Copying}

/-! ### Sights of copies -/

/-- What is reached from a value that is there is there. -/
theorem Heap.Sound.reaches_lt (sound : h.Sound) {v : Value} {i : Nat} (hv : h.Closed v)
    (r : h.Reaches v i) : i < h.objects.size := by
  induction r with
  | self i => exact hv
  | part e hp r ih => exact ih (sound.closed _ _ e _ hp)
  | cycle r ih => exact ih hv

namespace Copying

/-- The originals look as they did. -/
theorem Underway.sight_eq (u : Underway h s) (sound : h.Sound) {v : Value} (hv : h.Closed v) :
    s.heap.sight v = h.sight v := by
  funext d
  exact Heap.glimpse_congr (fun i r => u.originals i (sound.reaches_lt hv r)) d

/-- An object whose copy has parts missing. -/
def Unfinished (h : Heap) (s : Copying) (i : Nat) : Prop :=
  ∃ j, s.memo.lookup i = some (.object j) ∧ Cut h s i j

/-- A state between the copies of two values: nothing is being filled. -/
structure AtRest (h : Heap) (s : Copying) : Prop where
  underway : Underway h s
  entry : ∀ i j, s.memo.lookup i = some (.object j) → Done h s i j ∨ Cut h s i j

namespace AtRest

theorem start (h : Heap) : AtRest h ⟨h, [], [], []⟩ := ⟨.start h, nofun⟩

theorem step (a : AtRest h s) {complete : Prop} (st : Step h none complete s s') :
    AtRest h s' where
  underway := st.underway
  entry i j e' := by
    rcases e : s.memo.lookup i with - | v
    · obtain ⟨-, hd | ⟨-, hcut⟩⟩ := st.fresh i j e e'
      · exact .inl hd
      · exact .inr hcut
    · obtain rfl := Option.some.inj ((st.memo i v e).symm.trans e')
      rcases a.entry i j e with hd | hcut
      · exact .inl (st.done nofun hd)
      · exact .inr (st.cut nofun hcut)

/-- The two ways in which an object can be settled. -/
theorem settled_object (a : AtRest h s) {i : Nat} {o : Object} (e : h.get? i = some o)
    (hs : Settled h s.memo (.object i)) :
    (∃ j o', s.memo.lookup i = some (.object j) ∧ s.heap.get? j = some o' ∧
      (o'.parts.length < o.parts.length ∨ o'.shape j = o.shape i ∧
        o'.parts = o.parts.map (image s.memo) ∧ ∀ v ∈ o.parts, Settled h s.memo v)) ∨
    s.memo.lookup i = none ∧ Fixed h (.object i) := by
  rcases hi : s.memo.lookup i with - | v
  · exact .inr ⟨rfl, hs.resolve_left (not_not.mpr hi)⟩
  · obtain ⟨j, rfl, -⟩ := a.underway.entry i v hi
    left
    rcases a.entry i j hi with ⟨p, o', ep, e', hshape, hparts, hsettled⟩ | ⟨p, o', ep, e', hlt⟩
    · obtain rfl := Option.some.inj (e.symm.trans ep)
      exact ⟨j, o', rfl, e', .inr ⟨hshape, hparts, hsettled⟩⟩
    · obtain rfl := Option.some.inj (e.symm.trans ep)
      exact ⟨j, o', rfl, e', .inl hlt⟩

/-- A value that reaches no unfinished object is copied whole: induction on how deep one looks. -/
theorem glimpse_image (a : AtRest h s) (sound : h.Sound) {v : Value} (hv : h.Closed v)
    (hs : Settled h s.memo v) (hwhole : ∀ i, h.Reaches v i → ¬ Unfinished h s i) (d : Nat) :
    s.heap.glimpse d (image s.memo v) = h.glimpse d v := by
  induction d generalizing v with
  | zero =>
    cases v with
    | atom a => rfl
    | method v name =>
      obtain ⟨w, hw⟩ := image_method s.memo v name
      rw [hw]
      rfl
    | object i =>
      rcases a.underway.image_object i with ⟨-, hi⟩ | ⟨j, -, hi, -⟩ <;> rw [hi] <;> rfl
  | succ d ih =>
    cases v with
    | atom a => rfl
    | method v name =>
      by_cases hn : name = "cycle"
      · subst hn
        have hv' := ih (v := v) hv (hs rfl) fun i r => hwhole i (.cycle r)
        rw [image, if_pos rfl, Heap.glimpse_cycle, Heap.glimpse_cycle, hv']
      · rw [image, if_neg hn, Heap.glimpse_method _ d v hn, Heap.glimpse_method _ d v hn]
    | object i =>
      obtain ⟨o, e⟩ := Table.exists_get? hv
      rcases a.settled_object e hs with ⟨j, o', hi, e', hcase⟩ | ⟨-, hf⟩
      · rcases hcase with hlt | ⟨hshape, hparts, hsettled⟩
        · exact absurd ⟨j, hi, o, o', e, e', hlt⟩ (hwhole i (.self i))
        · have hglimpse : (o.parts.map (image s.memo)).map (s.heap.glimpse d)
              = o.parts.map (h.glimpse d) := by
            rw [List.map_map]
            exact List.map_congr_left fun p hp =>
              ih (sound.closed i o e p hp) (hsettled p hp) fun k r => hwhole k (.part e hp r)
          rw [image, hi, Option.getD_some, Heap.glimpse_object e', Heap.glimpse_object e, hshape,
            hparts, hglimpse]
      · rw [a.underway.image_fixed hf]
        exact congrFun (a.underway.sight_eq sound hv) (d + 1)

/-- A copy that looks like the original has no unfinished object in it: induction on how the object
is reached. -/
theorem not_unfinished_of_sight (a : AtRest h s) (sound : h.Sound) {v : Value} {i : Nat}
    (r : h.Reaches v i) (hv : h.Closed v) (hs : Settled h s.memo v)
    (hsight : s.heap.sight (image s.memo v) = h.sight v) : ¬ Unfinished h s i := by
  induction r with
  | self i =>
    rintro ⟨j, hi, o, o', e, e', hlt⟩
    rw [image, hi, Option.getD_some] at hsight
    have hparts := congrArg List.length (Heap.sight_object_inj e' e hsight).2
    rw [List.length_map, List.length_map] at hparts
    exact absurd hparts (Nat.ne_of_lt hlt)
  | @part i k o p e hp r ih =>
    have hclosed := sound.closed i o e p hp
    rcases a.settled_object e hs with ⟨j, o', hi, e', hcase⟩ | ⟨-, hf⟩
    · rw [image, hi, Option.getD_some] at hsight
      have hmap := (Heap.sight_object_inj e' e hsight).2
      rcases hcase with hlt | ⟨-, hparts, hsettled⟩
      · have hlen := congrArg List.length hmap
        rw [List.length_map, List.length_map] at hlen
        exact absurd hlen (Nat.ne_of_lt hlt)
      · rw [hparts, List.map_map] at hmap
        exact ih hclosed (hsettled p hp) (List.map_inj_left.mp hmap p hp)
    · cases hf with
      | tuple e'' hxs =>
        obtain rfl := Option.some.inj (e.symm.trans e'')
        have hfp : Fixed h p := hxs p hp
        refine ih hclosed hfp.settled ?_
        rw [a.underway.image_fixed hfp, a.underway.sight_eq sound hclosed]
  | cycle r ih =>
    rw [image, if_pos rfl] at hsight
    exact ih hv (hs rfl) (Heap.sight_cycle_inj hsight)

/-- The copy of a value looks like it just if the value reaches no unfinished object. -/
theorem sight_image_iff (a : AtRest h s) (sound : h.Sound) {v : Value} (hv : h.Closed v)
    (hs : Settled h s.memo v) :
    s.heap.sight (image s.memo v) = h.sight v ↔ ∀ i, h.Reaches v i → ¬ Unfinished h s i :=
  ⟨fun hsight _ r => a.not_unfinished_of_sight sound r hv hs hsight,
    fun hwhole => funext (a.glimpse_image sound hv hs hwhole)⟩

end AtRest

/-! ### Bindings -/

/-- A value that is there is shared, or replaced by its image for good. -/
def Replaced (h : Heap) (s : Copying) (v w : Value) : Prop :=
  h.Closed v ∧ (w = v ∨ w = image s.memo v ∧ Settled h s.memo v)

theorem Replaced.step {complete : Prop} (st : Step h none complete s s') {v w : Value}
    (r : Replaced h s v w) : Replaced h s' v w := by
  obtain ⟨hv, rfl | ⟨rfl, hs⟩⟩ := r
  · exact ⟨hv, .inl rfl⟩
  · exact ⟨hv, .inr ⟨(st.image_eq hs).symm, st.settled hs⟩⟩

/-- A value that replaces another looks like it just if it is the other or no unfinished object is
reached from the other. -/
theorem Replaced.sight_iff (sound : h.Sound) (a : AtRest h s) {v w : Value}
    (r : Replaced h s v w) :
    s.heap.sight w = h.sight v ↔ w = v ∨ ∀ i, h.Reaches v i → ¬ Unfinished h s i := by
  obtain ⟨hv, rfl | ⟨rfl, hs⟩⟩ := r
  · exact iff_of_true (a.underway.sight_eq sound hv) (.inl rfl)
  · rw [a.sight_image_iff sound hv hs]
    constructor
    · exact .inr
    · rintro (e | hwhole)
      · rw [← a.sight_image_iff sound hv hs, e]
        exact a.underway.sight_eq sound hv
      · exact hwhole

/-- Records do not matter to a copy. -/
theorem Step.records {complete : Prop} (st : Step h none complete s s') (rs : List Record) :
    Step h none complete s { s' with records := rs } where
  underway := ⟨st.underway.size_le, st.underway.originals, st.underway.entry, st.underway.begun,
    st.underway.inj⟩
  size_le := st.size_le
  same := st.same
  memo := st.memo
  fresh := st.fresh

theorem exec_recordSharing (n : String) (v : Value) (e : Failure) (s : Copying) :
    ∃ rs, (recordSharing (.text n) v e).exec s = (.ok ⟨⟩, { s with records := rs }) :=
  ⟨_, rfl⟩

/-- A bound value is copied or shared; that never fails. -/
theorem exec_cloneOrShare (sound : h.Sound) (a : AtRest h s) (n : String) {v : Value}
    (hv : h.Closed v) :
    ∃ w s', (cloneOrShare deepCopy recordSharing (.text n) v).exec s = (.ok w, s') ∧
      Step h none False s s' ∧ Replaced h s' v w := by
  have hworks := copies_deepCopyIn sound s.heap.deepest v s hv a.underway
  have hdeep : (deepCopy v).exec s = (deepCopyIn s.heap.deepest v).exec s := by
    rw [deepCopy, Run.exec_get_bind]
  rcases e : (deepCopyIn s.heap.deepest v).exec s with ⟨g | w, s'⟩
  · obtain ⟨st, hg, -⟩ := hworks.error g s' e
    rcases g with f | -
    · have hcatch : f.fault.catchable = true := by
        rw [Stop.final, Bool.not_eq_false'] at hg
        exact hg
      obtain ⟨rs, hrecord⟩ := exec_recordSharing n v f s'
      refine ⟨v, _, ?_, st.records rs, hv, .inl rfl⟩
      rw [cloneOrShare, Run.exec_catching, hdeep, e]
      dsimp only
      rw [if_pos hcatch, Run.exec_bind_ok hrecord]
      rfl
    · exact absurd hg (by decide)
  · obtain ⟨st, hw⟩ := hworks.ok w s' e
    have hend : Step h none True s' s' := .refl st.underway
    refine ⟨w, s', ?_, st.trans hend nofun nofun nofun, hv, .inr hw⟩
    rw [cloneOrShare, Run.exec_catching_ok (hdeep.trans e)]

theorem cloning_replaced (sound : h.Sound) :
    Cloning deepCopy recordSharing (fun n v => h.Closed v ∧ ∃ t, n = .text t) (AtRest h)
      (Step h none False) (Replaced h) where
  refl _ a := .refl a.underway
  trans _ _ _ st st' := st.trans st' nofun nofun nofun
  keeps _ _ _ _ st r := r.step st
  clones := by
    rintro - v s ⟨hv, t, rfl⟩ a
    obtain ⟨w, s', e, st, r⟩ := exec_cloneOrShare sound a t hv
    exact ⟨w, s', e, st, a.step st, r⟩

/-- A list of bindings is copied. -/
theorem exec_cloneEntries (sound : h.Sound) {es : List (Name × Value)}
    (hes : ∀ e ∈ es, h.Closed e.2 ∧ ∃ n, e.1 = .text n) (a : AtRest h s) :
    ∃ es' s', (cloneEntries deepCopy recordSharing es).exec s = (.ok es', s') ∧
      Step h none False s s' ∧
      List.Forall₂ (fun e e' => e'.1 = e.1 ∧ Replaced h s' e.2 e'.2) es es' := by
  obtain ⟨es', s', e, st, -, hall⟩ := (cloning_replaced sound).entries hes a
  exact ⟨es', s', e, st, hall⟩

/-- Frames are copied. -/
theorem exec_cloneFrames (sound : h.Sound) {fs : List (Frame Value)}
    (hfs : ∀ f ∈ fs, ∀ e ∈ f.entries, h.Closed e.2 ∧ ∃ n, e.1 = .text n) (a : AtRest h s) :
    ∃ fs' s', (cloneFrames deepCopy recordSharing fs).exec s = (.ok fs', s') ∧
      Step h none False s s' ∧
      List.Forall₂ (fun f f' => List.Forall₂
        (fun e e' => e'.1 = e.1 ∧ Replaced h s' e.2 e'.2) f.entries f'.entries) fs fs' := by
  obtain ⟨fs', s', e, st, -, hall⟩ := (cloning_replaced sound).frames hfs a
  exact ⟨fs', s', e, st, hall⟩

end Copying

/-! ### Contexts -/

namespace Context

/-- Whether all values that a context binds to names that are texts are there. -/
def Closed (h : Heap) (c : Context Value) : Prop :=
  ∀ f ∈ c.inward, ∀ e ∈ f.entries, h.Closed e.2 ∧ ∃ n, e.1 = .text n

end Context

open Copying in
/-- A deep copy of a context never fails and leaves the originals alone.  Each value is the original
or looks like it just if it is shared, or no object that is reached from it was left unfinished in
the memo by a copy that failed. -/
theorem copyWith_deepCopy_faithful (h : Heap) (c : Context Value) (sound : h.Sound)
    (hc : c.Closed h) :
    ∃ copy s, (c.copyWith deepCopy recordSharing).exec ⟨h, [], [], []⟩ = (.ok copy, s) ∧
      (∀ i, i < h.objects.size → s.heap.get? i = h.get? i) ∧
      c.Matches (fun v w => s.heap.sight w = h.sight v ↔
        w = v ∨ ∀ i, h.Reaches v i → ¬ Unfinished h s i) copy := by
  have houter : ∀ f ∈ c.outer.reverse, ∀ e ∈ f.entries, h.Closed e.2 ∧ ∃ n, e.1 = .text n :=
    fun f hf => hc f (.tail _ (List.mem_reverse.mp hf))
  obtain ⟨fs, s₁, hfs, st, hframes⟩ := exec_cloneFrames sound houter (.start h)
  have a := (AtRest.start h).step st
  obtain ⟨es, s₂, hes, st', hentries⟩ := exec_cloneEntries sound (hc _ (.head _)) a
  have a' := a.step st'
  refine ⟨⟨⟨es⟩, fs.reverse⟩, s₂, ?_, a'.underway.originals, .cons ?_ ?_⟩
  · rw [Context.copyWith, Run.exec_bind_ok hfs, Run.exec_bind_ok hes]
    rfl
  · exact hentries.imp fun e e' he => ⟨he.1, he.2.sight_iff sound a'⟩
  · rw [← List.forall₂_reverse_iff, List.reverse_reverse]
    exact hframes.imp fun f f' hf =>
      hf.imp fun e e' he => ⟨he.1, (he.2.step st').sight_iff sound a'⟩

open Copying in
/-- A list with a sealed item is bound twice.  The first copy fails and leaves an unfinished list in
the memo, which is what the second name gets. -/
theorem copyWith_deepCopy_faithful_bound_twice :
    let h : Heap := ⟨⟨#[.sealed "no", .list [.int 1, .object 0, .int 2]]⟩, 0⟩
    let c : Context Value := .ofBase (.ofNamed [("a", .object 1), ("b", .object 1)])
    h.Sound ∧ c.Closed h ∧
      ∃ copy s, (c.copyWith deepCopy recordSharing).exec ⟨h, [], [], []⟩ = (.ok copy, s) ∧
        copy.get "a" .absent = .object 1 ∧ copy.get "b" .absent = .object 2 ∧
        (s.heap.get? 2).map Object.parts = some [.int 1] ∧
        c.Matches (fun v w => s.heap.sight w = h.sight v ↔
          w = v ∨ ∀ i, h.Reaches v i → ¬ Unfinished h s i) copy := by
  intro h c
  have hobjects : ∀ i o, h.get? i = some o →
      o = .sealed "no" ∨ o = .list [.int 1, .object 0, .int 2] := by
    intro i o e
    match i with
    | 0 => exact .inl (Option.some.inj e).symm
    | 1 => exact .inr (Option.some.inj e).symm
    | _ + 2 => cases e
  have sound : h.Sound := by
    refine ⟨fun i o e v hv => ?_, fun i es e => ?_, fun i es e => ?_⟩
    · rcases hobjects i o e with rfl | rfl
      · cases hv
      · obtain rfl | rfl | rfl : v = .int 1 ∨ v = .object 0 ∨ v = .int 2 := by
          simpa [Object.parts] using hv
        · exact trivial
        · exact (by decide : 0 < 2)
        · exact trivial
    all_goals rcases hobjects i _ e with e' | e' <;> cases e'
  have hc : c.Closed h := by
    intro f hf e he
    obtain rfl : f = c.innermost := List.mem_singleton.mp hf
    have hentries : c.innermost.entries = [(.text "a", .object 1), (.text "b", .object 1)] := by
      decide
    rw [hentries] at he
    obtain rfl | rfl : e = (.text "a", .object 1) ∨ e = (.text "b", .object 1) := by
      simpa using he
    · exact ⟨(by decide : 1 < 2), _, rfl⟩
    · exact ⟨(by decide : 1 < 2), _, rfl⟩
  obtain ⟨copy, s, e, -, hmatches⟩ := copyWith_deepCopy_faithful h c sound hc
  have ha : ((c.copyWith deepCopy recordSharing).exec ⟨h, [], [], []⟩).1.toOption.map
      (fun copy => (copy.get "a" .absent, copy.get "b" .absent)) = some (.object 1, .object 2) := by
    decide +kernel
  have hs : ((((c.copyWith deepCopy recordSharing).exec ⟨h, [], [], []⟩).2.heap.get? 2).map
      Object.parts) = some [.int 1] := by
    decide +kernel
  rw [e] at ha hs
  have hnames := Prod.mk.inj (Option.some.inj ha)
  exact ⟨sound, hc, copy, s, e, hnames.1, hnames.2, hs, hmatches⟩

end Stencil
