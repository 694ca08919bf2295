/-
Stencil/Proofs/Scope/Mirror.lean

Contexts with the same data.  One context mirrors another if they bind the same
names in the same order, frame by frame, to values of which those of the first
mirror those of the second.  Then they give the same answers, and stay mirrors
when the same is done to both; and a deep copy of the first mirrors the second,
too (`copyWith_mirrors`).
-/
import Stencil.Proofs.Scope.Evolve
import Stencil.Proofs.Value.Reading
import Stencil.Proofs.Value.Tracking

namespace Stencil

variable {ρ : Nat → Nat} {g g' : Pairing}

/-- Two lists that are related to a third, item by item. -/
theorem List.Forall₂.meet {α β γ : Type} {R S : α → γ → Prop} {Q : β → γ → Prop} {xs : List α}
    {ys : List β} {zs : List γ} (h : List.Forall₂ R xs zs) (h' : List.Forall₂ Q ys zs)
    (hall : ∀ x y z, R x z → Q y z → S x z) : List.Forall₂ S xs zs := by
  induction h generalizing ys with
  | nil => exact .nil
  | cons hx _ ih =>
    cases h' with
    | cons hy h' => exact .cons (hall _ _ _ hx hy) (ih h')

/-! ### Bindings -/

section Bindings

variable {κ : Type}

/-- Entries of the same keys with values that are mirrors. -/
abbrev Bindings.EntriesMirror (g : Pairing) : List (κ × Value) → List (κ × Value) → Prop :=
  List.Forall₂ fun e e' => e'.1 = e.1 ∧ e.2.Mirrors g e'.2

/-- Bindings of such entries. -/
def Bindings.Mirrors (g : Pairing) (b b' : Bindings κ Value) : Prop :=
  Bindings.EntriesMirror g b.entries b'.entries

namespace Bindings.Mirrors

variable {b b' : Bindings κ Value}

theorem mono (h : g.Extends g') (m : b.Mirrors g b') : b.Mirrors g' b' := by
  exact List.Forall₂.imp (fun _ _ he => ⟨he.1, he.2.mono h⟩) m

theorem keys_eq (m : b.Mirrors g b') : b.keys = b'.keys :=
  List.Forall₂.map_eq (List.Forall₂.imp (fun _ _ he => he.1.symm) m)

theorem values (m : b.Mirrors g b') :
    Value.AllMirror g (b.entries.map (·.2)) (b'.entries.map (·.2)) :=
  List.forall₂_map_left_iff.mpr
    (List.forall₂_map_right_iff.mpr (List.Forall₂.imp (fun _ _ he => he.2) m))

variable [DecidableEq κ]

theorem rel_get? (m : b.Mirrors g b') (k : κ) :
    Option.Rel (Value.Mirrors g) (b.get? k) (b'.get? k) := by
  obtain ⟨es⟩ := b
  obtain ⟨es'⟩ := b'
  have h : Bindings.EntriesMirror g es es' := m
  show Option.Rel _ (es.lookup k) (es'.lookup k)
  clear m
  induction h with
  | nil => exact .none
  | @cons e e' _ _ he _ ih =>
    rw [List.lookup_cons, List.lookup_cons, he.1]
    split
    · exact .some he.2
    · exact ih

theorem set (m : b.Mirrors g b') (k : κ) {v v' : Value} (hv : v.Mirrors g v') :
    Bindings.Mirrors g (b.set k v) (b'.set k v') := by
  obtain ⟨es⟩ := b
  obtain ⟨es'⟩ := b'
  have h : Bindings.EntriesMirror g es es' := m
  show Bindings.EntriesMirror g (Bindings.setEntry k v es) (Bindings.setEntry k v' es')
  clear m
  induction h with
  | nil => exact .cons ⟨rfl, hv⟩ .nil
  | @cons e e' es es' he hes ih =>
    rw [Bindings.setEntry, Bindings.setEntry, he.1]
    split
    · exact .cons ⟨rfl, hv⟩ hes
    · exact .cons ⟨rfl, he.2⟩ ih

/-- Keys that are bound one after the other. -/
theorem setAll {es es' : List (κ × Value)} (hes : Bindings.EntriesMirror g es es')
    (m : b.Mirrors g b') : Bindings.Mirrors g (b.setAll es) (b'.setAll es') := by
  induction hes generalizing b b' with
  | nil => exact m
  | @cons e e' es es' he _ ih =>
    show Bindings.Mirrors g ((b.set e.1 e.2).setAll es) ((b'.set e'.1 e'.2).setAll es')
    rw [he.1]
    exact ih (m.set e.1 he.2)

theorem ofList {es es' : List (κ × Value)} (hes : Bindings.EntriesMirror g es es') :
    Bindings.Mirrors g (.ofList es) (.ofList es') := by
  have hempty : Bindings.Mirrors g (Bindings.empty : Bindings κ Value) .empty := .nil
  exact hempty.setAll hes

end Bindings.Mirrors

end Bindings

theorem Frame.mirrors_ofNamed {es es' : List (String × Value)}
    (hes : Bindings.EntriesMirror g es es') :
    Bindings.Mirrors g (Frame.ofNamed es) (Frame.ofNamed es') := by
  refine .ofList (List.forall₂_map_left_iff.mpr (List.forall₂_map_right_iff.mpr ?_))
  exact hes.imp fun _ _ he => ⟨congrArg Name.text he.1, he.2⟩

/-! ### Names -/

/-- The name is an atom, as texts are; so it is no object. -/
def Name.Atomic (n : Name) : Prop := ∃ a : Atom, n.value = .atom a

/-- It is suggested as what it is, without regard to the heap. -/
theorem Name.Atomic.candidate_eq {n : Name} (hn : n.Atomic) (h h' : Heap) :
    n.candidate h = n.candidate h' := by
  cases n with
  | text s => rfl
  | key v =>
    obtain ⟨a, rfl⟩ : ∃ a, v = .atom a := hn
    rfl

/-- All names of a frame are atoms. -/
def Frame.Atomic {α : Type} (f : Frame α) : Prop := ∀ n ∈ f.keys, n.Atomic

theorem Frame.Atomic.set {α : Type} {f : Frame α} (hf : f.Atomic) (n : String) (a : α) :
    Frame.Atomic (f.set (.text n) a) := by
  intro k hk
  rw [Bindings.keys_set] at hk
  split at hk
  · exact hf k hk
  · rcases List.mem_append.mp hk with hk | hk
    · exact hf k hk
    · obtain rfl := List.mem_singleton.mp hk
      exact ⟨.str n, rfl⟩

/-- Induction on the named values. -/
theorem Frame.atomic_ofNamed {α : Type} (es : List (String × α)) : (Frame.ofNamed es).Atomic := by
  have hall : ∀ (es : List (String × α)) (f : Frame α), f.Atomic →
      Frame.Atomic (f.setAll (es.map fun e => (.text e.1, e.2))) := by
    intro es
    induction es with
    | nil => exact fun f hf => hf
    | cons e rest ih => exact fun f hf => ih _ (hf.set e.1 e.2)
  exact hall es .empty nofun

/-! ### Contexts -/

/-- The context `c` mirrors the context `d`; no name is an object. -/
structure Context.Mirrors (g : Pairing) (c d : Context Value) : Prop where
  frames : List.Forall₂ (Bindings.Mirrors g) c.inward d.inward
  atomic : ∀ f ∈ d.inward, f.Atomic

namespace Context.Mirrors

variable {c d : Context Value}

theorem mono (h : g.Extends g') (m : c.Mirrors g d) : c.Mirrors g' d :=
  ⟨m.frames.imp fun _ _ hf => hf.mono h, m.atomic⟩

/-- Where another context mirrors it by what ranks below some number, so does this one. -/
theorem ranked {b : Context Value} {n : Nat} (m : c.Mirrors g d)
    (m' : b.Mirrors (g'.below ρ n) d) : c.Mirrors (g.below ρ n) d where
  frames := List.Forall₂.meet m.frames m'.frames fun _ _ _ hf hf' =>
    List.Forall₂.meet hf hf' fun _ _ _ he he' => ⟨he.1, he.2.ranked he'.2⟩
  atomic := m.atomic

theorem innermost (m : c.Mirrors g d) : c.innermost.Mirrors g d.innermost := by
  cases m.frames with
  | cons hf _ => exact hf

theorem outer (m : c.Mirrors g d) : List.Forall₂ (Bindings.Mirrors g) c.outer d.outer := by
  cases m.frames with
  | cons _ hrest => exact hrest

/-- A name has the same value, or none. -/
theorem rel_lookup? (m : c.Mirrors g d) (n : Name) :
    Option.Rel (Value.Mirrors g) (c.lookup? n) (d.lookup? n) := by
  have hfind : ∀ {fs fs' : List (Frame Value)}, List.Forall₂ (Bindings.Mirrors g) fs fs' →
      Option.Rel (Value.Mirrors g) (Context.findIn n fs) (Context.findIn n fs') := by
    intro fs fs' hfs
    induction hfs with
    | nil => exact .none
    | cons hf _ ih => exact Heap.Mirrors.rel_or (hf.rel_get? n) ih
  exact hfind m.frames

theorem keys_eq (m : c.Mirrors g d) : c.inward.map (·.keys) = d.inward.map (·.keys) :=
  List.Forall₂.map_eq (m.frames.imp fun _ _ hf => hf.keys_eq)

/-- The visible names are the same. -/
theorem names_eq (m : c.Mirrors g d) : c.names = d.names := by
  have hnames : ∀ (c : Context Value), c.names =
      (c.inward.map (·.keys)).foldl (fun seen ks => seen ++ ks.filter (!seen.contains ·)) [] := by
    intro c
    rw [List.foldl_map]
    rfl
  rw [hnames c, hnames d, m.keys_eq]

/-- Every name comes from a frame: induction on the frames. -/
theorem names_atomic (m : c.Mirrors g d) : ∀ n ∈ d.names, n.Atomic := by
  have hfold : ∀ (fs : List (Frame Value)) (seen : List Name), (∀ f ∈ fs, f.Atomic) →
      (∀ n ∈ seen, n.Atomic) →
      ∀ n ∈ fs.foldl (fun seen f => seen ++ f.keys.filter (!seen.contains ·)) seen, n.Atomic := by
    intro fs
    induction fs with
    | nil => exact fun seen _ hseen => hseen
    | cons f rest ih =>
      intro seen hfs hseen
      refine ih _ (fun f' hf' => hfs f' (.tail _ hf')) fun n hn => ?_
      rcases List.mem_append.mp hn with hn | hn
      · exact hseen n hn
      · exact hfs f (.head _) n (List.mem_of_mem_filter hn)
  exact hfold d.inward [] m.atomic nofun

theorem set (m : c.Mirrors g d) (n : String) {v v' : Value} (hv : v.Mirrors g v') :
    (c.set n v).Mirrors g (d.set n v') where
  frames := .cons (m.innermost.set n hv) m.outer
  atomic f hf := by
    rcases List.mem_cons.mp hf with rfl | hf
    · exact (m.atomic _ (.head _)).set n v'
    · exact m.atomic f (.tail _ hf)

theorem push (m : c.Mirrors g d) {f f' : Frame Value} (hf : f.Mirrors g f') (atomic : f'.Atomic) :
    (c.push f).Mirrors g (d.push f') where
  frames := .cons hf m.frames
  atomic f'' hf'' := by
    rcases List.mem_cons.mp hf'' with rfl | hf''
    · exact atomic
    · exact m.atomic f'' hf''

/-- Without the innermost frames. -/
theorem ofOuter {f f' : Frame Value} {fs fs' : List (Frame Value)} (m : c.Mirrors g d)
    (hc : c.outer = f :: fs) (hd : d.outer = f' :: fs') :
    Context.Mirrors g ⟨f, fs⟩ ⟨f', fs'⟩ where
  frames := by
    have h := m.outer
    rw [hc, hd] at h
    exact h
  atomic f'' hf'' := m.atomic f'' (.tail _ (hd ▸ hf''))

end Context.Mirrors

/-! ### Copies -/

namespace Copying

variable {h₀ h' : Heap} {g₀ : Pairing} {s : Copying}

/-- A list of bindings is copied: induction on the bindings. -/
theorem grows_cloneEntries (hm : h₀.Mirrors ρ g₀ h') {es es' : List (Name × Value)}
    (hes : Bindings.EntriesMirror g₀ es es') (t : Tracks ρ g₀ h₀ h' h'.objects.size g s) :
    Grows ρ g₀ h₀ h' h'.objects.size none g s (cloneEntries deepCopy recordSharing es)
      fun g' _ copies => Bindings.EntriesMirror g' copies es' := by
  induction hes generalizing g s with
  | nil => exact .pure t .nil
  | cons he _ ih =>
    obtain ⟨w, g₁, s₁, e₁, f₁, hw⟩ := copiesTo_deepCopy hm he.2 g s t
    have hshare : ∀ n, Grows ρ g₀ h₀ h' h'.objects.size none g s
        (cloneOrShare deepCopy recordSharing n _) fun g' _ w => w.Mirrors g' _ :=
      fun n => ⟨w, g₁, s₁, Run.exec_catching_ok e₁, f₁, hw.mono Pairing.below_extends⟩
    refine (hshare _).bind fun w g₁ s₁ f₁ hw => ?_
    refine (ih f₁.tracks).bind fun ws g₂ s₂ f₂ hws => .pure f₂.tracks ?_
    exact .cons ⟨he.1, hw.mono f₂.extends⟩ hws

/-- Frames are copied: induction on the frames. -/
theorem grows_cloneFrames (hm : h₀.Mirrors ρ g₀ h') {fs fs' : List (Frame Value)}
    (hfs : List.Forall₂ (Bindings.Mirrors g₀) fs fs') (t : Tracks ρ g₀ h₀ h' h'.objects.size g s) :
    Grows ρ g₀ h₀ h' h'.objects.size none g s (cloneFrames deepCopy recordSharing fs)
      fun g' _ copies => List.Forall₂ (Bindings.Mirrors g') copies fs' := by
  induction hfs generalizing g s with
  | nil => exact .pure t .nil
  | cons hf _ ih =>
    refine (grows_cloneEntries hm hf t).bind fun es g₁ s₁ f₁ hes => ?_
    refine (ih f₁.tracks).bind fun gs g₂ s₂ f₂ hgs => .pure f₂.tracks (.cons ?_ hgs)
    exact Bindings.Mirrors.mono f₂.extends hes

end Copying

open Copying in
/-- A deep copy of a context mirrors what the context does. -/
theorem copyWith_mirrors {h h' : Heap} (hm : h.Mirrors ρ g h') {c d : Context Value}
    (m : c.Mirrors g d) :
    ∃ copy s g', (c.copyWith deepCopy recordSharing).exec ⟨h, [], [], []⟩ = (.ok copy, s) ∧
      g.Extends g' ∧ s.heap.Mirrors ρ g' h' ∧ copy.Mirrors g' d := by
  have houter := List.forall₂_reverse_iff.mpr m.outer
  obtain ⟨fs, g₁, s₁, e₁, f₁, hfs⟩ := grows_cloneFrames hm houter (.start hm _)
  obtain ⟨es, g₂, s₂, e₂, f₂, hes⟩ := grows_cloneEntries hm m.innermost f₁.tracks
  refine ⟨⟨⟨es⟩, fs.reverse⟩, s₂, g₂, ?_, f₂.tracks.extends, f₂.tracks.heap, ?_, m.atomic⟩
  · rw [Context.copyWith, Run.exec_bind_ok e₁, Run.exec_bind_ok e₂]
    rfl
  · refine .cons hes ?_
    rw [← List.forall₂_reverse_iff, List.reverse_reverse]
    exact hfs.imp fun _ _ hf => hf.mono f₂.extends

end Stencil
