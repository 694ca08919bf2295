/-
Stencil/Proofs/Scope/Views.lean

The views of a context agree.  Looking a name up, asking whether it is bound, listing the names and
flattening the frames go over the frames in different ways, and they let the inner binding win in
different ways; but they find the same names, and the binding of the innermost frame that has the
name (`Context.ViewsAgree`).

What they need of the frames is that each binds a name once (`Context.Dictionaries.viewsAgree`).
Contexts are made of such frames (`Making.exists_of_run`), and no edit of a context changes this
(`Edit.keeps_dictionaries`), so the views agree whenever they are asked.
-/
import Mathlib.Data.List.Nodup
import Mathlib.Data.List.TFAE
import Stencil.Proofs.Scope.Edit
import Stencil.Proofs.Scope.Evolve

namespace Stencil

variable {α : Type}

/-! ### Bindings of distinct keys -/

namespace Bindings

variable {κ : Type} [DecidableEq κ] {b d : Bindings κ α} {n : κ}

theorem get?_eq_none_iff : b.get? n = none ↔ n ∉ b.keys := by
  rw [get?, List.lookup_eq_none_iff, keys, List.mem_map]
  constructor
  · rintro h ⟨e, he, rfl⟩
    simpa using h e he
  · exact fun h e he => bne_iff_ne.mpr fun hn => h ⟨e, he, hn.symm⟩

theorem isSome_get? : (b.get? n).isSome = true ↔ n ∈ b.keys := by
  rw [← not_iff_not, Bool.not_eq_true, Option.isSome_eq_false_iff, Option.isNone_iff_eq_none,
    get?_eq_none_iff]

theorem contains_iff : b.contains n = true ↔ n ∈ b.keys := isSome_get?

theorem nodup_keys_set (h : b.keys.Nodup) (k : κ) (v : α) : (b.set k v).keys.Nodup := by
  rw [keys_set]
  split
  · exact h
  · next hk => exact List.nodup_append_comm.mp (List.nodup_cons.mpr ⟨hk, h⟩)

theorem nodup_keys_setAll (h : b.keys.Nodup) (es : List (κ × α)) : (b.setAll es).keys.Nodup := by
  induction es generalizing b with
  | nil => exact h
  | cons e es ih => exact ih (nodup_keys_set h e.1 e.2)

theorem nodup_keys_ofList (es : List (κ × α)) : (ofList es).keys.Nodup :=
  nodup_keys_setAll (b := empty) List.nodup_nil es

/-- The last of the values that are set for a key counts; a dictionary has one for each. -/
theorem get?_update (h : d.keys.Nodup) : (b.update d).get? n = (d.get? n).or (b.get? n) := by
  obtain ⟨es⟩ := d
  show (b.setAll es).get? n = (es.lookup n).or (b.get? n)
  replace h : (es.map (·.1)).Nodup := h
  induction es generalizing b with
  | nil => rfl
  | cons e es ih =>
    rw [List.map_cons, List.nodup_cons] at h
    have hrest : (b.setAll (e :: es)).get? n = (es.lookup n).or ((b.set e.1 e.2).get? n) :=
      ih (b := b.set e.1 e.2) h.2
    rw [hrest, get?_set, List.lookup_cons]
    by_cases hn : n = e.1
    · -- no later write is to the same key
      have hnone : es.lookup n = none := by
        rw [hn]
        exact get?_eq_none_iff (b := ⟨es⟩) |>.mpr h.1
      rw [hnone, if_pos hn, hn, beq_self_eq_true]
      rfl
    · rw [if_neg hn, beq_false_of_ne hn]

end Bindings

/-! ### Frames of a context -/

namespace Context

variable {x y : Context α} {n a b : Name} {f : Frame α} {fs front rest : List (Frame α)}
  {seen : List Name}

/-- Each frame binds a name once. -/
def Dictionaries (x : Context α) : Prop := ∀ f ∈ x.inward, f.keys.Nodup

/-- The number of the innermost frame that binds a name, counted from the innermost of all. -/
def level (x : Context α) (n : Name) : Nat := x.inward.findIdx (·.contains n)

/-- The innermost frame that binds a name. -/
def home? (x : Context α) (n : Name) : Option (Frame α) := x.inward.find? (·.contains n)

/-- The place of a name among those of the innermost frame that binds it. -/
def place (x : Context α) (n : Name) : Nat := (x.home? n).elim 0 (·.keys.idxOf n)

/-- Whether a name stands before another: its frame is further in, or it is the same frame and the
name was bound in it earlier. -/
def Before (x : Context α) (a b : Name) : Prop :=
  x.level a < x.level b ∨ x.level a = x.level b ∧ x.place a < x.place b

/-- The views of a context agree. -/
structure ViewsAgree (x : Context α) : Prop where
  /-- They find the same names. -/
  found : ∀ n, [(x.lookup? n).isSome = true, x.contains n = true, n ∈ x.names,
    n ∈ x.flatten.keys].TFAE
  /-- The value that is found is the one in the flattened frame. -/
  flattened : ∀ n, x.lookup? n = x.flatten.get? n
  /-- It is the one that the innermost frame with the name binds. -/
  innermost : ∀ n v, x.lookup? n = some v ↔ ∃ f, x.home? n = some f ∧ f.get? n = some v
  /-- So it is with a default, which stands for what is not found. -/
  get : ∀ n d, (∀ v, x.lookup? n = some v → x.get n d = v) ∧ (x.lookup? n = none → x.get n d = d)
  /-- Names are listed by their frames, and in the order of each frame. -/
  order : x.names.Pairwise x.Before
  /-- Each is listed once. -/
  once : x.names.Nodup

theorem Before.ne (h : x.Before a b) : a ≠ b := by
  rintro rfl
  rcases h with h | ⟨-, h⟩ <;> exact Nat.lt_irrefl _ h

theorem findIn_eq (n : Name) (fs : List (Frame α)) :
    findIn n fs = (fs.find? (·.contains n)).bind (·.get? n) := by
  induction fs with
  | nil => rfl
  | cons f fs ih =>
    rw [findIn, List.find?_cons, Bindings.contains]
    rcases e : f.get? n with - | v
    · exact ih
    · exact e.symm

theorem lookup?_eq_home? (x : Context α) (n : Name) : x.lookup? n = (x.home? n).bind (·.get? n) :=
  findIn_eq n x.inward

theorem isSome_lookup? : (x.lookup? n).isSome = true ↔ ∃ f ∈ x.inward, n ∈ f.keys := by
  rw [lookup?_eq_home?]
  rcases e : x.home? n with - | f
  · simp only [home?, List.find?_eq_none, Bindings.contains_iff] at e
    exact ⟨nofun, fun ⟨f, hf, hn⟩ => absurd hn (e f hf)⟩
  · have hn : f.contains n = true := List.find?_some (p := (Bindings.contains · n)) e
    exact ⟨fun _ => ⟨f, List.mem_of_find?_eq_some e, Bindings.contains_iff.mp hn⟩, fun _ => hn⟩

theorem contains_iff : x.contains n = true ↔ ∃ f ∈ x.inward, n ∈ f.keys := by
  simp only [contains, List.any_eq_true, Bindings.contains_iff]

/-! ### Flattening -/

theorem get?_foldr_update (h : ∀ f ∈ fs, f.keys.Nodup) (n : Name) :
    (fs.foldr (fun f b => Bindings.update b f) .empty).get? n = findIn n fs := by
  induction fs with
  | nil => rfl
  | cons f fs ih =>
    rw [List.forall_mem_cons] at h
    rw [List.foldr_cons, Bindings.get?_update h.1, ih h.2, findIn]

/-- The last write to a name in the flattened frame is that of the innermost frame. -/
theorem Dictionaries.get?_flatten (h : x.Dictionaries) (n : Name) :
    x.flatten.get? n = x.lookup? n := by
  rw [flatten, frames, List.foldl_reverse]
  exact get?_foldr_update h n

/-! ### Listing -/

/-- The names that a frame adds to those that were listed. -/
def seenWith (seen : List Name) (f : Frame α) : List Name := seen ++ f.keys.filter (!seen.contains ·)

theorem mem_seenWith : n ∈ seenWith seen f ↔ n ∈ seen ∨ n ∈ f.keys := by
  by_cases hn : n ∈ seen <;> simp [seenWith, hn]

theorem mem_foldl_seenWith :
    n ∈ fs.foldl seenWith seen ↔ n ∈ seen ∨ ∃ f ∈ fs, n ∈ f.keys := by
  induction fs generalizing seen with
  | nil => simp
  | cons f fs ih => simp only [List.foldl_cons, ih, mem_seenWith, List.exists_mem_cons_iff, or_assoc]

theorem mem_names : n ∈ x.names ↔ ∃ f ∈ x.inward, n ∈ f.keys := by
  show n ∈ x.inward.foldl seenWith [] ↔ _
  rw [mem_foldl_seenWith]
  simp

theorem level_lt_of_mem (h : x.inward = front ++ rest) (hn : ∃ f ∈ front, n ∈ f.keys) :
    x.level n < front.length := by
  have hlt : front.findIdx (·.contains n) < front.length := by
    simpa [List.findIdx_lt_length, Bindings.contains_iff] using hn
  rw [level, h, List.findIdx_append, if_pos hlt]
  exact hlt

/-- A name of a frame that is in none further in. -/
theorem home?_eq_of_mem (h : x.inward = front ++ f :: rest) (hfront : ¬ ∃ f ∈ front, n ∈ f.keys)
    (hn : n ∈ f.keys) : x.level n = front.length ∧ x.home? n = some f := by
  have hnone : ∀ g ∈ front, g.contains n = false := fun g hg =>
    Bool.eq_false_iff.mpr fun hc => hfront ⟨g, hg, Bindings.contains_iff.mp hc⟩
  constructor
  · have hidx : front.findIdx (·.contains n) = front.length := by
      simpa [List.findIdx_eq_length] using hnone
    rw [level, h, List.findIdx_append, hidx, if_neg (Nat.lt_irrefl _), List.findIdx_cons,
      Bindings.contains_iff.mpr hn]
    exact Nat.zero_add _
  · rw [home?, h, List.find?_append, List.find?_eq_none.mpr (by simpa using hnone),
      List.find?_cons, Bindings.contains_iff.mpr hn]
    rfl

/-- The names of a frame that are in none further in stand in the order of the frame. -/
theorem pairwise_new (h : x.inward = front ++ f :: rest) (distinct : f.keys.Nodup)
    (hseen : ∀ n, n ∈ seen ↔ ∃ f ∈ front, n ∈ f.keys) :
    (f.keys.filter (!seen.contains ·)).Pairwise x.Before := by
  rw [List.pairwise_filter, List.pairwise_iff_getElem]
  intro i j hi hj hij ha hb
  have hnew : ∀ {n}, (!seen.contains n) = true → ¬ ∃ f ∈ front, n ∈ f.keys := fun hn =>
    (hseen _).not.mp (by simpa using hn)
  obtain ⟨hla, hfa⟩ := home?_eq_of_mem h (hnew ha) (List.getElem_mem hi)
  obtain ⟨hlb, hfb⟩ := home?_eq_of_mem h (hnew hb) (List.getElem_mem hj)
  refine .inr ⟨hla.trans hlb.symm, ?_⟩
  rw [place, place, hfa, hfb, Option.elim_some, Option.elim_some, distinct.idxOf_getElem i hi,
    distinct.idxOf_getElem j hj]
  exact hij

/-- Induction on the frames that are still to be listed: what is listed are the names of those in
front, in their order. -/
theorem pairwise_foldl_seenWith (distinct : x.Dictionaries) (h : x.inward = front ++ rest)
    (hseen : ∀ n, n ∈ seen ↔ ∃ f ∈ front, n ∈ f.keys) (sorted : seen.Pairwise x.Before) :
    (rest.foldl seenWith seen).Pairwise x.Before := by
  induction rest generalizing front seen with
  | nil => exact sorted
  | cons f rest ih =>
    have h' : x.inward = (front ++ [f]) ++ rest := by rw [h, List.append_cons]
    refine ih h' (fun n => ?_) ?_
    · rw [mem_seenWith, hseen]
      simp [or_and_right, exists_or]
    · -- the names in front are further in than the new ones
      have hf : f.keys.Nodup := distinct f (by simp [h])
      refine List.pairwise_append.mpr ⟨sorted, pairwise_new h hf hseen, fun a ha b hb => .inl ?_⟩
      rw [List.mem_filter] at hb
      have hb' : ¬ ∃ f ∈ front, b ∈ f.keys := (hseen b).not.mp (by simpa using hb.2)
      rw [(home?_eq_of_mem h hb' hb.1).1]
      exact level_lt_of_mem h ((hseen a).mp ha)

theorem Dictionaries.pairwise_names (h : x.Dictionaries) : x.names.Pairwise x.Before := by
  have hnil : x.inward = [] ++ x.inward := rfl
  exact pairwise_foldl_seenWith h hnil (by simp) .nil

/-! ### Agreement -/

theorem Dictionaries.viewsAgree (h : x.Dictionaries) : x.ViewsAgree where
  found n := by
    have hflat : n ∈ x.flatten.keys ↔ ∃ f ∈ x.inward, n ∈ f.keys := by
      rw [← Bindings.isSome_get?, h.get?_flatten, isSome_lookup?]
    refine List.tfae_of_forall (∃ f ∈ x.inward, n ∈ f.keys) _ ?_
    simp only [List.forall_mem_cons]
    exact ⟨isSome_lookup?, contains_iff, mem_names, hflat, nofun⟩
  flattened n := (h.get?_flatten n).symm
  innermost n v := by rw [lookup?_eq_home?, Option.bind_eq_some_iff]
  get n d := by
    constructor
    · intro v hv
      rw [get, hv, Option.getD_some]
    · intro hnone
      rw [get, hnone, Option.getD_none]
  order := h.pairwise_names
  once := h.pairwise_names.imp Before.ne

theorem Dictionaries.of_inward {f : Frame α} (hf : f.keys.Nodup)
    (h : ∀ g ∈ fs, g.keys.Nodup) (e : x.inward = f :: fs) : x.Dictionaries := by
  rw [Dictionaries, e]
  exact List.forall_mem_cons.mpr ⟨hf, h⟩

end Context

/-- Edits keep frames dictionaries. -/
theorem Edit.keeps_dictionaries : Edit.Keeps (fun _ : Context α => True) Context.Dictionaries where
  set n v h := by
    have h := List.forall_mem_cons.mp h
    exact .of_inward (Bindings.nodup_keys_set h.1 n v) h.2 rfl
  update es h := by
    have h := List.forall_mem_cons.mp h
    exact .of_inward (Bindings.nodup_keys_setAll h.1 _) h.2 rfl
  push es h := .of_inward (Bindings.nodup_keys_ofList es) h rfl
  pop e _ h := by
    rw [Context.Dictionaries, Context.inward_of_pop e]
    exact (List.forall_mem_cons.mp h).2

/-! ### Contexts that are made -/

/-- How a context is made: with nothing, from the entries of a base, or from those of frames, the
base first. -/
inductive Making (α : Type) where
  | empty
  | base (entries : List (Name × α))
  | frames (frames : List (List (Name × α)))

namespace Making

/-- Makes a context. -/
def run : Making α → Run (Loans α) Nat
  | empty => Loans.addContext .empty
  | base es => Loans.addContext (.ofBase (.ofList es))
  | frames fs => Loans.addFrames (fs.map .ofList)

theorem exists_of_run {m : Making α} {l l' : Loans α} {c : Nat} (h : m.run.exec l = (.ok c, l')) :
    ∃ x : Context α, x.Dictionaries ∧ l'.contexts.get? c = some x := by
  have hadd : ∀ x : Context α, (Loans.addContext x).exec l = (.ok c, l') →
      l'.contexts.get? c = some x := by
    intro x e
    cases e
    exact Table.get?_add_new ..
  cases m with
  | empty =>
    have hempty : (Bindings.empty : Frame α).keys.Nodup := List.nodup_nil
    exact ⟨_, .of_inward hempty (List.forall_mem_nil _) rfl, hadd _ h⟩
  | base es =>
    exact ⟨_, .of_inward (Bindings.nodup_keys_ofList es) (List.forall_mem_nil _) rfl, hadd _ h⟩
  | frames fs =>
    rw [run, Loans.addFrames, Context.ofFrames?] at h
    have hall : ∀ f ∈ (fs.map Bindings.ofList).reverse, f.keys.Nodup := by
      intro f hf
      obtain ⟨es, -, rfl⟩ := List.mem_map.mp (List.mem_reverse.mp hf)
      exact Bindings.nodup_keys_ofList es
    rcases e : (fs.map Bindings.ofList).reverse with - | ⟨f, rest⟩
    · rw [e] at h
      cases h
    · rw [e] at h hall
      exact ⟨⟨f, rest⟩, hall, hadd _ h⟩

/-- However a context is made and edited, its views agree at each stage. -/
theorem views_agree {m : Making α} {l l' : Loans α} {c : Nat} {x : Context α}
    (made : m.run.exec l = (.ok c, l')) (edits : List (Edit α))
    (stage : x ∈ l'.contextAt c :: Edit.stages c edits l') : x.ViewsAgree := by
  obtain ⟨y, hy, there⟩ := exists_of_run made
  rw [← Loans.contextAt_eq there] at hy
  have hstages := (Edit.keeps_dictionaries.runAll c edits (Table.lt_size there) hy
    fun _ _ => trivial).1
  exact (List.forall_mem_cons.mpr ⟨hy, hstages⟩ x stage).viewsAgree

/-- A name that is bound twice, to nothing further in, and then in the block of a scope that a
failure ends. -/
theorem views_agree_shadowed :
    let m : Making Value := .base [("a", .int 1), ("b", .int 2)]
    let l' := (m.run.exec .empty).2
    let edits : List (Edit Value) :=
      [.push [("b", .absent), ("c", .int 3)],
        .attempt [.scope [("c", .int 4)] [.set "b" (.int 5), .raise (.of Context.popBase)]]]
    let x : Context Value := ⟨.ofList [("b", .absent), ("c", .int 3)],
      [.ofList [("a", .int 1), ("b", .int 2)]]⟩
    let y := x.push (.ofList [("c", .int 4), ("b", .int 5)])
    m.run.exec .empty = (.ok 0, l') ∧
      (x ∈ l'.contextAt 0 :: Edit.stages 0 edits l' ∧ x.ViewsAgree ∧
        x.names = ["b", "c", "a"] ∧ x.lookup? "b" = some .absent) ∧
      (y ∈ l'.contextAt 0 :: Edit.stages 0 edits l' ∧ y.ViewsAgree ∧
        y.names = ["c", "b", "a"] ∧ y.lookup? "b" = some (.int 5)) := by
  intro m l' edits x y
  have made : m.run.exec .empty = (.ok 0, l') := rfl
  have hx : x ∈ l'.contextAt 0 :: Edit.stages 0 edits l' := .tail _ (.head _)
  have hy : y ∈ l'.contextAt 0 :: Edit.stages 0 edits l' := .tail _ (.tail _ (.tail _ (.head _)))
  exact ⟨made, ⟨hx, views_agree made edits hx, by decide, rfl⟩,
    hy, views_agree made edits hy, by decide, rfl⟩

end Making

end Stencil
