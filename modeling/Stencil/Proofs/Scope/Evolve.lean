/-
Stencil/Proofs/Scope/Evolve.lean

What a context comes to by writes and copies.  A write binds a name in the
innermost frame; a copy is made of the whole context, base frame first, and in
one state of the clone function.

Two facts carry the scope discipline of renders.  The frames below the
innermost one change by copies only.  And a frame that is pushed hides all
others from writes, while a copy of the larger context holds a copy of the
smaller one: so whatever comes of the larger context, when the frame is taken
off the smaller one is left, copied at most.
-/
import Stencil.Proofs.Render.Conduct
import Stencil.Proofs.Scope.Copy
import Stencil.Render.Reclaim

namespace Stencil

/-! ### Copies in parts -/

section Copies

variable {σ α : Type} {clone : α → Run σ α} {shared : Name → α → Failure → Run σ Unit} {s s' : σ}

/-- A copy of frames is a copy of the first ones, and then of the others. -/
theorem cloneFrames_append_eq_ok {fs gs hs : List (Frame α)}
    (h : (cloneFrames clone shared (fs ++ gs)).exec s = (.ok hs, s')) :
    ∃ fs' gs' s₁, hs = fs' ++ gs' ∧ (cloneFrames clone shared fs).exec s = (.ok fs', s₁) ∧
      (cloneFrames clone shared gs).exec s₁ = (.ok gs', s') := by
  induction fs generalizing s hs with
  | nil => exact ⟨[], hs, s, rfl, rfl, h⟩
  | cons f rest ih =>
    obtain ⟨es, s₁, hes, h⟩ := Run.exec_bind_eq_ok h
    obtain ⟨rest', s₂, hrest, h⟩ := Run.exec_bind_eq_ok h
    obtain ⟨e, rfl⟩ := Prod.mk.inj h
    obtain rfl := Except.ok.inj e
    obtain ⟨fs', gs', s₃, rfl, hfs, hgs⟩ := ih hrest
    refine ⟨⟨es⟩ :: fs', gs', s₃, rfl, ?_, hgs⟩
    rw [cloneFrames, Run.exec_bind_ok hes, Run.exec_bind_ok hfs, Run.exec_pure]

/-- The parts of a copy. -/
theorem Context.copyWith_eq_ok {c c' : Context α}
    (h : (c.copyWith clone shared).exec s = (.ok c', s')) :
    ∃ outer es s₁, c' = ⟨⟨es⟩, outer.reverse⟩ ∧
      (cloneFrames clone shared c.outer.reverse).exec s = (.ok outer, s₁) ∧
      (cloneEntries clone shared c.innermost.entries).exec s₁ = (.ok es, s') := by
  obtain ⟨outer, s₁, houter, h⟩ := Run.exec_bind_eq_ok h
  obtain ⟨es, s₂, hes, h⟩ := Run.exec_bind_eq_ok h
  obtain ⟨e, rfl⟩ := Prod.mk.inj h
  obtain rfl := Except.ok.inj e
  exact ⟨outer, es, s₁, rfl, houter, hes⟩

/-- A copy of a context with a frame on top is a copy of the context, and a frame on top. -/
theorem Context.copyWith_push {x z : Context α} {f : Frame α}
    (h : ((x.push f).copyWith clone shared).exec s = (.ok z, s')) :
    ∃ y g s₁, z = y.push g ∧ (x.copyWith clone shared).exec s = (.ok y, s₁) := by
  obtain ⟨outer, es, s₁, rfl, houter, -⟩ := copyWith_eq_ok h
  have hframes : (x.push f).outer.reverse = x.outer.reverse ++ [x.innermost] := by
    simp [push, inward]
  rw [hframes] at houter
  obtain ⟨below, top, s₂, rfl, hbelow, htop⟩ := cloneFrames_append_eq_ok houter
  obtain ⟨es', s₃, hes', htop⟩ := Run.exec_bind_eq_ok htop
  obtain ⟨e, rfl⟩ := Prod.mk.inj htop
  obtain rfl := Except.ok.inj e
  refine ⟨⟨⟨es'⟩, below.reverse⟩, ⟨es⟩, s₃, ?_, ?_⟩
  · simp [push, inward]
  · rw [copyWith, Run.exec_bind_ok hbelow, Run.exec_bind_ok hes', Run.exec_pure]

end Copies

/-! ### Names -/

theorem Bindings.keys_set {κ α : Type} [DecidableEq κ] (b : Bindings κ α) (k : κ) (v : α) :
    (b.set k v).keys = if k ∈ b.keys then b.keys else b.keys ++ [k] := by
  obtain ⟨es⟩ := b
  show (setEntry k v es).map (·.1) = if k ∈ es.map (·.1) then es.map (·.1) else es.map (·.1) ++ [k]
  induction es with
  | nil => rfl
  | cons e rest ih =>
    by_cases h : e.1 = k
    · simp [setEntry, h]
    · have hmem : k ∈ (e :: rest).map (·.1) ↔ k ∈ rest.map (·.1) := by
        simp [Ne.symm h]
      have hset : setEntry k v (e :: rest) = e :: setEntry k v rest := if_neg h
      rw [hset, List.map_cons, ih]
      simp only [hmem]
      split <;> rfl

theorem Bindings.get?_set {κ α : Type} [DecidableEq κ] (b : Bindings κ α) (k n : κ) (v : α) :
    (b.set k v).get? n = if n = k then some v else b.get? n := by
  obtain ⟨es⟩ := b
  show (setEntry k v es).lookup n = if n = k then some v else es.lookup n
  induction es with
  | nil =>
    rw [setEntry, List.lookup_cons, List.lookup_nil]
    by_cases hn : n = k
    · rw [if_pos hn, hn, beq_self_eq_true]
    · rw [if_neg hn, beq_false_of_ne hn]
  | cons e rest ih =>
    rw [setEntry]
    by_cases he : e.1 = k
    · rw [if_pos he, List.lookup_cons, List.lookup_cons, he]
      by_cases hn : n = k
      · rw [if_pos hn, hn, beq_self_eq_true]
      · rw [if_neg hn, beq_false_of_ne hn]
    · rw [if_neg he, List.lookup_cons, List.lookup_cons, ih]
      by_cases hn : n = e.1
      · subst hn
        rw [beq_self_eq_true, if_neg he, if_neg he]
      · rw [beq_false_of_ne hn]

namespace Context

theorem outer_writeAll (ws : List Write) (x : Context Value) : (x.writeAll ws).outer = x.outer := by
  induction ws generalizing x with
  | nil => rfl
  | cons w ws ih => exact ih (x.set w.1 w.2)

/-- Which names are bound after writes depends only on which were bound before. -/
theorem keys_writeAll {x y : Context Value} (h : y.innermost.keys = x.innermost.keys)
    (ws : List Write) :
    (y.writeAll ws).innermost.keys = (x.writeAll ws).innermost.keys := by
  induction ws generalizing x y with
  | nil => exact h
  | cons w ws ih =>
    refine ih ?_
    show (y.innermost.set w.1 w.2).keys = (x.innermost.set w.1 w.2).keys
    rw [Bindings.keys_set, Bindings.keys_set, h]

theorem writeAll_push (x : Context Value) (f : Frame Value) (ws : List Write) :
    ∃ g, (x.push f).writeAll ws = x.push g := by
  induction ws generalizing f with
  | nil => exact ⟨f, rfl⟩
  | cons w ws ih => exact ih (f.set w.1 w.2)

end Context

/-! ### Evolution -/

/-- What comes of a context by writes, made in order, with copies in between. -/
inductive Evolves (clone : Clone) (x : Context Value) : List Write → Context Value → Prop
  | rests : Evolves clone x [] x
  | writes {ws : List Write} {y : Context Value} (e : Evolves clone x ws y) (vs : List Write) :
      Evolves clone x (ws ++ vs) (y.writeAll vs)
  | copies {ws : List Write} {y z : Context Value} {h : Heap} {s : Copying}
      (e : Evolves clone x ws y)
      (copy : (y.copyWith clone recordSharing).exec ⟨h, [], [], []⟩ = (.ok z, s)) :
      Evolves clone x ws z

/-- What comes of frames by copies, the base first. -/
inductive Recopied (clone : Clone) (fs : List (Frame Value)) : List (Frame Value) → Prop
  | rests : Recopied clone fs fs
  | copies {gs hs : List (Frame Value)} {h : Heap} {s : Copying} (r : Recopied clone fs gs)
      (copy : (cloneFrames clone recordSharing gs).exec ⟨h, [], [], []⟩ = (.ok hs, s)) :
      Recopied clone fs hs

theorem Recopied.names {clone : Clone} {fs gs : List (Frame Value)} (r : Recopied clone fs gs) :
    gs.map (·.keys) = fs.map (·.keys) := by
  induction r with
  | rests => rfl
  | copies _ copy ih => exact (cloneFrames_names copy).trans ih

namespace Evolves

variable {clone : Clone} {x y z : Context Value} {ws vs : List Write}

theorem trans (e : Evolves clone x ws y) (e' : Evolves clone y vs z) :
    Evolves clone x (ws ++ vs) z := by
  induction e' with
  | rests =>
    rw [List.append_nil]
    exact e
  | writes _ us ih =>
    rw [← List.append_assoc]
    exact ih.writes us
  | copies _ copy ih => exact ih.copies copy

theorem of_writes (x : Context Value) (ws : List Write) : Evolves clone x ws (x.writeAll ws) :=
  rests.writes ws

/-- The frames below the innermost one are copied only. -/
theorem outer (e : Evolves clone x ws y) : Recopied clone x.outer.reverse y.outer.reverse := by
  induction e with
  | rests => exact .rests
  | writes _ vs ih =>
    rw [Context.outer_writeAll]
    exact ih
  | copies _ copy ih =>
    obtain ⟨outer, es, s₁, rfl, houter, -⟩ := Context.copyWith_eq_ok copy
    rw [List.reverse_reverse]
    exact ih.copies houter

/-- The names of the innermost frame are those that the writes leave. -/
theorem names (e : Evolves clone x ws y) :
    y.innermost.keys = (x.writeAll ws).innermost.keys := by
  induction e with
  | rests => rfl
  | writes _ vs ih =>
    rw [Context.writeAll_append]
    exact Context.keys_writeAll ih vs
  | copies _ copy ih =>
    obtain ⟨outer, es, s₁, rfl, -, hes⟩ := Context.copyWith_eq_ok copy
    exact (cloneEntries_names hes).trans ih

/-- Whatever comes of a context with a frame on top, below that frame it is copied only. -/
theorem pushed {f : Frame Value} (e : Evolves clone (x.push f) ws z) :
    ∃ y g, z = y.push g ∧ Evolves clone x [] y := by
  induction e with
  | rests => exact ⟨x, f, rfl, .rests⟩
  | writes _ vs ih =>
    obtain ⟨y, g, rfl, e'⟩ := ih
    obtain ⟨g', hg⟩ := y.writeAll_push g vs
    exact ⟨y, g', hg, e'⟩
  | copies _ copy ih =>
    obtain ⟨y, g, rfl, e'⟩ := ih
    obtain ⟨y', g', s₁, hz, copy'⟩ := Context.copyWith_push copy
    exact ⟨y', g', hz, e'.copies copy'⟩

end Evolves

/-- A part of a render that did the writes `ws` from outside all scopes leads from the context `x`
to the context `y`. -/
structure Disciplined (clone : Clone) (ws : List Write) (x y : Context Value) : Prop where
  depth : y.depth = x.depth
  outer_names : y.outer.map (·.keys) = x.outer.map (·.keys)
  outer : Recopied clone x.outer.reverse y.outer.reverse
  names : y.innermost.keys = (x.writeAll ws).innermost.keys
  evolves : Evolves clone x ws y

theorem Evolves.disciplined {clone : Clone} {ws : List Write} {x y : Context Value}
    (e : Evolves clone x ws y) : Disciplined clone ws x y := by
  have hnames : y.outer.map (·.keys) = x.outer.map (·.keys) := by
    have h := congrArg List.reverse e.outer.names
    rw [List.map_reverse, List.map_reverse, List.reverse_reverse, List.reverse_reverse] at h
    exact h
  refine ⟨?_, hnames, e.outer, e.names, e⟩
  have hlength := congrArg List.length hnames
  rw [List.length_map, List.length_map] at hlength
  rw [Context.depth, Context.depth, hlength]

end Stencil
