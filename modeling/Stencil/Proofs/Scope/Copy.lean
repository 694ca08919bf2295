/-
Stencil/Proofs/Scope/Copy.lean

What a copy of a context keeps whatever the clone function does: each frame
binds the names that the frame it was made from binds, in their order.

What is good about a clone may be known to stay so while others are made.  Then
it is so of all values of a copy of a context, if there comes to be one
(`Replacing.context`); and if clones are known to succeed, so does the copy
(`Cloning.context`).
-/
import Mathlib.Data.List.Forall2
import Stencil.Proofs.Run
import Stencil.Scope.Copy

namespace Stencil

variable {σ α : Type}

variable {clone : α → Run σ α} {shared : Name → α → Failure → Run σ Unit} {s s' : σ}

/-- Induction on the entries: each keeps its name. -/
theorem cloneEntries_names {es es' : List (Name × α)}
    (h : (cloneEntries clone shared es).exec s = (.ok es', s')) :
    es'.map (·.1) = es.map (·.1) := by
  induction es generalizing s s' es' with
  | nil =>
    obtain rfl := Except.ok.inj (congrArg Prod.fst h)
    rfl
  | cons e rest ih =>
    obtain ⟨v, s₁, -, h⟩ := Run.exec_bind_eq_ok h
    obtain ⟨vs, s₂, hrest, h⟩ := Run.exec_bind_eq_ok h
    obtain rfl := Except.ok.inj (congrArg Prod.fst h)
    exact congrArg (e.1 :: ·) (ih hrest)

theorem cloneFrames_names {fs fs' : List (Frame α)}
    (h : (cloneFrames clone shared fs).exec s = (.ok fs', s')) :
    fs'.map (·.keys) = fs.map (·.keys) := by
  induction fs generalizing s s' fs' with
  | nil =>
    obtain rfl := Except.ok.inj (congrArg Prod.fst h)
    rfl
  | cons f rest ih =>
    obtain ⟨es, s₁, hes, h⟩ := Run.exec_bind_eq_ok h
    obtain ⟨fs, s₂, hrest, h⟩ := Run.exec_bind_eq_ok h
    obtain rfl := Except.ok.inj (congrArg Prod.fst h)
    have hkeys : (⟨es⟩ : Frame α).keys = f.keys := cloneEntries_names hes
    rw [List.map_cons, List.map_cons, hkeys, ih hrest]

/-- A copy of a context has as many frames, and they bind the same names in the same order. -/
theorem Context.copyWith_names {c c' : Context α}
    (h : (c.copyWith clone shared).exec s = (.ok c', s')) :
    c'.inward.map (·.keys) = c.inward.map (·.keys) := by
  obtain ⟨outer, s₁, houter, h⟩ := Run.exec_bind_eq_ok h
  obtain ⟨es, s₂, hes, h⟩ := Run.exec_bind_eq_ok h
  obtain rfl := Except.ok.inj (congrArg Prod.fst h)
  have hinner : (⟨es⟩ : Frame α).keys = c.innermost.keys := cloneEntries_names hes
  have hrest : outer.reverse.map (·.keys) = c.outer.map (·.keys) := by
    rw [List.map_reverse, cloneFrames_names houter, List.map_reverse, List.reverse_reverse]
  rw [inward, inward, List.map_cons, List.map_cons, hinner, hrest]

/-! ### Copies that are good -/

/-- Whether two contexts bind the same names in the same order, frame by frame, with values that are
related. -/
def Context.Matches {α β : Type} (R : α → β → Prop) (c : Context α) (d : Context β) : Prop :=
  List.Forall₂ (fun f f' => List.Forall₂
    (fun e e' => e'.1 = e.1 ∧ R e.2 e'.2) f.entries f'.entries) c.inward d.inward

/-- What is so of all values that are related to another is so of all that are bound. -/
theorem Context.Matches.forall_left {α β : Type} {R : α → β → Prop} {P : α → Prop} {c : Context α}
    {d : Context β} (m : c.Matches R d) (h : ∀ a b, R a b → P a) :
    ∀ f ∈ c.inward, ∀ e ∈ f.entries, P e.2 := by
  have hall : ∀ {γ δ : Type} {S : γ → δ → Prop} {Q : γ → Prop} {xs : List γ} {ys : List δ},
      List.Forall₂ S xs ys → (∀ x y, S x y → Q x) → ∀ x ∈ xs, Q x := by
    intro γ δ S Q xs ys hxs hS
    induction hxs with
    | nil => exact nofun
    | cons hx _ ih => exact List.forall_mem_cons.mpr ⟨hS _ _ hx, ih⟩
  exact hall m fun _ _ hf => hall hf fun _ _ he => h _ _ he.2

/-- The frame of a number binds each name in both, or in none. -/
theorem Context.Matches.frame {α β : Type} {R : α → β → Prop} {c : Context α} {d : Context β}
    (m : c.Matches R d) {k : Nat} {f : Frame α} (e : c.frames[k]? = some f) :
    ∃ f', d.frames[k]? = some f' ∧ ∀ n, Option.Rel R (f.get? n) (f'.get? n) := by
  have hframes : List.Forall₂ (fun f f' => List.Forall₂
      (fun e e' => e'.1 = e.1 ∧ R e.2 e'.2) f.entries f'.entries) c.frames d.frames :=
    List.forall₂_reverse_iff.mpr m
  obtain ⟨hk, ef⟩ := List.getElem?_eq_some_iff.mp e
  have hk' : k < d.frames.length := hframes.length_eq ▸ hk
  have hentries := hframes.get hk hk'
  rw [List.get_eq_getElem, List.get_eq_getElem, ef] at hentries
  refine ⟨d.frames[k], List.getElem?_eq_getElem hk', fun n => ?_⟩
  show Option.Rel R (f.entries.lookup n) (d.frames[k].entries.lookup n)
  generalize f.entries = es, d.frames[k].entries = es' at hentries
  induction hentries with
  | nil => exact .none
  | @cons e e' _ _ he _ ih =>
    rw [List.lookup_cons, List.lookup_cons, he.1]
    split
    · exact .some he.2
    · exact ih

/-- However a value comes to be cloned or shared in the states where `Inv` holds, that takes a step
`R`, and what is good about a value and its clone outlasts such steps. -/
structure Replacing (clone : α → Run σ α) (shared : Name → α → Failure → Run σ Unit)
    (Inv : σ → Prop) (R : σ → σ → Prop) (Good : σ → α → α → Prop) : Prop where
  keeps : ∀ s s' a b, R s s' → Good s a b → Good s' a b
  clones : ∀ n a s, Inv s →
    (cloneOrShare clone shared n a).Leads R s fun s' b => Inv s' ∧ Good s' a b

namespace Replacing

variable {Inv : σ → Prop} {R : σ → σ → Prop} [IsPreorder σ R] {Good : σ → α → α → Prop}
  (k : Replacing clone shared Inv R Good)
include k

/-- Induction on the entries. -/
theorem entries (es : List (Name × α)) (inv : Inv s) :
    (cloneEntries clone shared es).Leads R s fun s' es' => Inv s' ∧
      List.Forall₂ (fun e e' => e'.1 = e.1 ∧ Good s' e.2 e'.2) es es' := by
  induction es generalizing s with
  | nil => exact .pure ⟨inv, .nil⟩
  | cons e rest ih =>
    rw [cloneEntries]
    refine .bind (k.clones e.1 e.2 s inv) fun b s₁ _ ⟨inv₁, good⟩ => ?_
    refine .bind (ih inv₁) fun es' s₂ later ⟨inv₂, hall⟩ => ?_
    exact .pure ⟨inv₂, .cons ⟨rfl, k.keeps _ _ _ _ later good⟩ hall⟩

/-- Induction on the frames. -/
theorem frames (fs : List (Frame α)) (inv : Inv s) :
    (cloneFrames clone shared fs).Leads R s fun s' fs' => Inv s' ∧
      List.Forall₂ (fun f f' => List.Forall₂
        (fun e e' => e'.1 = e.1 ∧ Good s' e.2 e'.2) f.entries f'.entries) fs fs' := by
  induction fs generalizing s with
  | nil => exact .pure ⟨inv, .nil⟩
  | cons f rest ih =>
    rw [cloneFrames]
    refine .bind (k.entries f.entries inv) fun es s₁ _ ⟨inv₁, hentries⟩ => ?_
    refine .bind (ih inv₁) fun fs' s₂ later ⟨inv₂, hframes⟩ => ?_
    refine .pure ⟨inv₂, .cons (hentries.imp fun e e' he => ?_) hframes⟩
    exact ⟨he.1, k.keeps _ _ _ _ later he.2⟩

/-- A copy of a context, if it comes to one. -/
theorem context (c : Context α) (inv : Inv s) :
    (c.copyWith clone shared).Leads R s fun s' c' => Inv s' ∧ c.Matches (Good s') c' := by
  rw [Context.copyWith]
  refine .bind (k.frames c.outer.reverse inv) fun fs s₁ _ ⟨inv₁, hframes⟩ => ?_
  refine .bind (k.entries c.innermost.entries inv₁) fun es s₂ later ⟨inv₂, hentries⟩ => ?_
  refine .pure ⟨inv₂, .cons hentries ?_⟩
  rw [← List.forall₂_reverse_iff, List.reverse_reverse]
  exact hframes.imp fun f f' hf => hf.imp fun e e' he => ⟨he.1, k.keeps _ _ _ _ later he.2⟩

end Replacing

/-! ### Copies that succeed -/

/-- Values of names that are fit are cloned, or shared, in the states where `Inv` holds.  That takes
a step `R`, and what is good about a value and its clone outlasts such steps. -/
structure Cloning (clone : α → Run σ α) (shared : Name → α → Failure → Run σ Unit)
    (fit : Name → α → Prop) (Inv : σ → Prop) (R : σ → σ → Prop) (Good : σ → α → α → Prop) :
    Prop where
  refl : ∀ s, Inv s → R s s
  trans : ∀ s s' s'', R s s' → R s' s'' → R s s''
  keeps : ∀ s s' a b, R s s' → Good s a b → Good s' a b
  clones : ∀ n a s, fit n a → Inv s → ∃ b s', (cloneOrShare clone shared n a).exec s = (.ok b, s') ∧
    R s s' ∧ Inv s' ∧ Good s' a b

namespace Cloning

variable {fit : Name → α → Prop} {Inv : σ → Prop} {R : σ → σ → Prop} {Good : σ → α → α → Prop}
  (k : Cloning clone shared fit Inv R Good)
include k

/-- Induction on the entries. -/
theorem entries {es : List (Name × α)} (hes : ∀ e ∈ es, fit e.1 e.2) (inv : Inv s) :
    ∃ es' s', (cloneEntries clone shared es).exec s = (.ok es', s') ∧ R s s' ∧ Inv s' ∧
      List.Forall₂ (fun e e' => e'.1 = e.1 ∧ Good s' e.2 e'.2) es es' := by
  induction es generalizing s with
  | nil => exact ⟨[], s, rfl, k.refl s inv, inv, .nil⟩
  | cons e rest ih =>
    obtain ⟨b, s₁, hb, r₁, inv₁, good⟩ := k.clones e.1 e.2 s (hes e (.head _)) inv
    obtain ⟨es', s₂, hrest, r₂, inv₂, hall⟩ := ih (fun e he => hes e (.tail _ he)) inv₁
    refine ⟨(e.1, b) :: es', s₂, ?_, k.trans s s₁ s₂ r₁ r₂, inv₂, ?_⟩
    · rw [cloneEntries, Run.exec_bind_ok hb, Run.exec_bind_ok hrest]
      rfl
    · exact .cons ⟨rfl, k.keeps s₁ s₂ e.2 b r₂ good⟩ hall

/-- Induction on the frames. -/
theorem frames {fs : List (Frame α)} (hfs : ∀ f ∈ fs, ∀ e ∈ f.entries, fit e.1 e.2) (inv : Inv s) :
    ∃ fs' s', (cloneFrames clone shared fs).exec s = (.ok fs', s') ∧ R s s' ∧ Inv s' ∧
      List.Forall₂ (fun f f' => List.Forall₂
        (fun e e' => e'.1 = e.1 ∧ Good s' e.2 e'.2) f.entries f'.entries) fs fs' := by
  induction fs generalizing s with
  | nil => exact ⟨[], s, rfl, k.refl s inv, inv, .nil⟩
  | cons f rest ih =>
    obtain ⟨es', s₁, hes, r₁, inv₁, hentries⟩ := k.entries (hfs f (.head _)) inv
    obtain ⟨fs', s₂, hrest, r₂, inv₂, hframes⟩ := ih (fun f hf => hfs f (.tail _ hf)) inv₁
    refine ⟨⟨es'⟩ :: fs', s₂, ?_, k.trans s s₁ s₂ r₁ r₂, inv₂, .cons ?_ hframes⟩
    · rw [cloneFrames, Run.exec_bind_ok hes, Run.exec_bind_ok hrest]
      rfl
    · exact hentries.imp fun e e' he => ⟨he.1, k.keeps s₁ s₂ _ _ r₂ he.2⟩

/-- A copy of a context succeeds. -/
theorem context {c : Context α} (hc : ∀ f ∈ c.inward, ∀ e ∈ f.entries, fit e.1 e.2) (inv : Inv s) :
    ∃ c' s', (c.copyWith clone shared).exec s = (.ok c', s') ∧ R s s' ∧ Inv s' ∧
      c.Matches (Good s') c' := by
  obtain ⟨fs, s₁, hfs, r₁, inv₁, hframes⟩ :=
    k.frames (fun f hf => hc f (.tail _ (List.mem_reverse.mp hf))) inv
  obtain ⟨es, s₂, hes, r₂, inv₂, hentries⟩ := k.entries (hc _ (.head _)) inv₁
  refine ⟨⟨⟨es⟩, fs.reverse⟩, s₂, ?_, k.trans s s₁ s₂ r₁ r₂, inv₂, .cons hentries ?_⟩
  · rw [Context.copyWith, Run.exec_bind_ok hfs, Run.exec_bind_ok hes]
    rfl
  · rw [← List.forall₂_reverse_iff, List.reverse_reverse]
    exact hframes.imp fun f f' hf =>
      hf.imp fun e e' he => ⟨he.1, k.keeps s₁ s₂ _ _ r₂ he.2⟩

end Cloning

end Stencil
