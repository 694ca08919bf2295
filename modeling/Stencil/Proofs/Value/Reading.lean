/-
Stencil/Proofs/Value/Reading.lean

What is read of a value is the same in a heap and in one that mirrors it: its
type, its truth, its text and its view, the values of its attributes and items,
and what there is to go through.  Only a loop moves when somebody goes through
it, so going through anything else leaves both heaps as they are.

Texts and views are cut off at some depth, and where an object is inside itself.
Data have an end and less depth than there are objects, so neither happens.
-/
import Stencil.Filter
import Stencil.Proofs.Run
import Stencil.Proofs.Value.Mirror
import Stencil.Value.Datum

namespace Stencil

/-- Lists of things with the same outcomes have the same outcomes. -/
theorem List.Forall₂.mapM_eq {α β γ ε : Type} {f : α → Except ε γ} {f' : β → Except ε γ}
    {xs : List α} {ys : List β} (h : List.Forall₂ (fun x y => f x = f' y) xs ys) :
    xs.mapM f = ys.mapM f' := by
  induction h with
  | nil => rfl
  | cons e _ ih => rw [List.mapM_cons, List.mapM_cons, e, ih]

theorem List.Forall₂.map_eq {α β γ : Type} {f : α → γ} {f' : β → γ} {xs : List α} {ys : List β}
    (h : List.Forall₂ (fun x y => f x = f' y) xs ys) : xs.map f = ys.map f' := by
  induction h with
  | nil => rfl
  | cons e _ ih => rw [List.map_cons, List.map_cons, e, ih]

/-- The same fault, or results that are related. -/
inductive Likewise {ε α β : Type} (P : α → β → Prop) : Except ε α → Except ε β → Prop
  | ok {a : α} {b : β} (h : P a b) : Likewise P (.ok a) (.ok b)
  | error (e : ε) : Likewise P (.error e) (.error e)

theorem Likewise.imp {ε α β : Type} {P Q : α → β → Prop} {x : Except ε α} {y : Except ε β}
    (h : Likewise P x y) (hPQ : ∀ a b, P a b → Q a b) : Likewise Q x y := by
  cases h with
  | ok hab => exact .ok (hPQ _ _ hab)
  | error e => exact .error e

theorem Likewise.mapError {ε ε' α β : Type} {P : α → β → Prop} {x : Except ε α} {y : Except ε β}
    (h : Likewise P x y) (f : ε → ε') : Likewise P (x.mapError f) (y.mapError f) := by
  cases h with
  | ok hab => exact .ok hab
  | error e => exact .error (f e)

theorem Likewise.eq {ε α : Type} {x y : Except ε α} (h : Likewise (· = ·) x y) : x = y := by
  cases h with
  | ok hab => exact congrArg _ hab
  | error e => rfl

/-- Whether a value is the state of a loop. -/
def Heap.isLoop (h : Heap) (v : Value) : Bool :=
  match h.objectOf? v with
  | some (.loop _) => true
  | _ => false

namespace Heap.Mirrors

variable {ρ : Nat → Nat} {g : Pairing} {h h' : Heap} {v v' : Value} {i j n : Nat}

/-- The objects of partners. -/
theorem objects (m : h.Mirrors ρ g h') (e : g i = some j) :
    ∃ o o', h.get? i = some o ∧ h'.get? j = some o' ∧ o.Mirrors g o' := by
  obtain ⟨o, o', ho, ho', hm⟩ := m.row i j e
  exact ⟨o, o', ho, ho', hm.mono Pairing.below_extends⟩

theorem typeName_eq (m : h.Mirrors ρ g h') (hv : v.Mirrors g v') :
    h.typeName v = h'.typeName v' := by
  cases hv with
  | atom a => rfl
  | object e =>
    obtain ⟨o, o', ho, ho', hm⟩ := m.objects e
    rw [typeName, typeName, ho, ho']
    cases hm <;> rfl
  | method hv _ name =>
    unfold typeName
    split <;> simp_all

theorem truth_eq (m : h.Mirrors ρ g h') (hv : v.Mirrors g v') : h.truth v = h'.truth v' := by
  cases hv with
  | atom a => rfl
  | method hv _ name => rfl
  | object e =>
    obtain ⟨o, o', ho, ho', hm⟩ := m.objects e
    rw [truth, truth, ho, ho']
    cases hm with
    | list hvs | tuple hvs => cases hvs <;> rfl
    | dict hes => cases hes <;> rfl
    | loop e p => rfl

theorem listItems (m : h.Mirrors ρ g h') (e : g i = some j) :
    Value.AllMirror g (h.listItems i) (h'.listItems j) := by
  obtain ⟨o, o', ho, ho', hm⟩ := m.objects e
  rw [Heap.listItems, Heap.listItems, ho, ho']
  cases hm with
  | list hvs => exact hvs
  | tuple _ | dict _ | loop _ _ => exact .nil

theorem loopText_eq (m : h.Mirrors ρ g h') (e : g i = some j) (p : Nat) :
    h.loopText (some ⟨i, p⟩) = h'.loopText (some ⟨j, p⟩) := by
  rw [loopText, loopText, (m.listItems e).length_eq]

/-! ### Texts and views -/

/-- Objects around a value have partners of no lower rank than `n`. -/
structure Around (ρ : Nat → Nat) (g : Pairing) (n : Nat) (as as' : List Nat) : Prop where
  left : ∀ i j, i ∈ as → g i = some j → n ≤ ρ j
  right : ∀ j ∈ as', n ≤ ρ j

theorem Around.nil (n : Nat) : Around ρ g n [] [] := ⟨nofun, nofun⟩

/-- An object that ranks lower is none of those around it. -/
theorem Around.contains {as as' : List Nat} (a : Around ρ g n as as') (e : g i = some j)
    (hj : ρ j < n) : as.contains i = false ∧ as'.contains j = false := by
  rw [List.contains_eq_mem, List.contains_eq_mem, decide_eq_false_iff_not, decide_eq_false_iff_not]
  exact ⟨fun hi => Nat.not_le.mpr hj (a.left i j hi e), fun h => Nat.not_le.mpr hj (a.right j h)⟩

theorem Around.cons {as as' : List Nat} (a : Around ρ g n as as') (e : g i = some j)
    (hj : ρ j < n) : Around ρ g (ρ j) (i :: as) (j :: as') where
  left k l hk el := by
    rcases List.mem_cons.mp hk with rfl | hk
    · obtain rfl := Option.some.inj (e.symm.trans el)
      exact Nat.le_refl _
    · exact Nat.le_trans (Nat.le_of_lt hj) (a.left k l hk el)
  right k hk := by
    rcases List.mem_cons.mp hk with rfl | hk
    · exact Nat.le_refl _
    · exact Nat.le_trans (Nat.le_of_lt hj) (a.right k hk)

/-- Induction on the depth of one text.  The rank of the value goes down with it. -/
theorem quotedIn_eq (m : h.Mirrors ρ g h') {d d' : Nat} {as as' : List Nat}
    (hv : v.Mirrors (g.below ρ n) v') (hd : n ≤ d) (hd' : n ≤ d') (a : Around ρ g n as as') :
    h.quotedIn d as v = h'.quotedIn d' as' v' := by
  induction d generalizing d' n as as' v v' with
  | zero =>
    cases hv with
    | atom a => cases d' <;> rfl
    | method hv _ name => cases d' <;> rfl
    | object e => exact absurd (Pairing.below_eq_some.mp e).2 (by omega)
  | succ d ih =>
    cases hv with
    | atom a => cases d' <;> rfl
    | method hv _ name => cases d' <;> rfl
    | @object i j e =>
      obtain ⟨e, hj⟩ := Pairing.below_eq_some.mp e
      obtain ⟨o, o', ho, ho', hm⟩ := m.row i j e
      obtain ⟨hi, hj'⟩ := a.contains e hj
      obtain ⟨d', rfl⟩ : ∃ k, d' = k + 1 := ⟨d' - 1, by omega⟩
      have hpart : ∀ {v v'}, v.Mirrors (g.below ρ (ρ j)) v' →
          h.quotedIn d (i :: as) v = h'.quotedIn d' (j :: as') v' :=
        fun hv => ih hv (by omega) (by omega) (a.cons e hj)
      have hparts : ∀ {vs vs'}, Value.AllMirror (g.below ρ (ρ j)) vs vs' →
          vs.mapM (h.quotedIn d (i :: as)) = vs'.mapM (h'.quotedIn d' (j :: as')) :=
        fun hvs => List.Forall₂.mapM_eq (hvs.imp fun _ _ => hpart)
      rw [quotedIn, quotedIn, ho, ho']
      cases hm with
      | list hvs | tuple hvs =>
        dsimp only
        rw [hi, hj', hparts hvs]
      | dict hes =>
        dsimp only
        rw [hi, hj', List.Forall₂.mapM_eq (hes.imp fun _ _ he => by rw [hpart he.1, hpart he.2])]
      | loop e p => exact m.loopText_eq (Pairing.below_extends _ _ e) p

theorem quoted_eq (m : h.Mirrors ρ g h') (hv : v.Mirrors g v') : h.quoted v = h'.quoted v' := by
  have hsize := m.size_le
  exact m.quotedIn_eq (hv.mono (m.extends_below (Nat.le_refl _))) (by omega) (by omega) (.nil _)

theorem text_eq (m : h.Mirrors ρ g h') (hv : v.Mirrors g v') : h.text v = h'.text v' := by
  have hquoted := m.quoted_eq hv
  cases hv with
  | atom a =>
    cases a with
    | str s => rfl
    | none | bool _ | int _ | float _ => exact hquoted
  | object e | method hv _ name => exact hquoted

theorem printed_eq (m : h.Mirrors ρ g h') (hv : v.Mirrors g v') : h.printed v = h'.printed v' := by
  have htext := m.text_eq hv
  cases hv with
  | atom a =>
    cases a with
    | none => rfl
    | bool _ | int _ | float _ | str _ => exact htext
  | object e | method hv _ name => exact htext

theorem subject_eq (m : h.Mirrors ρ g h') (hv : v.Mirrors g v') :
    h.subject v = h'.subject v' := by
  rw [subject, subject, m.text_eq hv, m.quoted_eq hv]
  cases hv <;> rfl

theorem viewIn_eq (m : h.Mirrors ρ g h') {d d' : Nat} {as as' : List Nat}
    (hv : v.Mirrors (g.below ρ n) v') (hd : n ≤ d) (hd' : n ≤ d') (a : Around ρ g n as as') :
    h.viewIn d as v = h'.viewIn d' as' v' := by
  induction d generalizing d' n as as' v v' with
  | zero =>
    cases hv with
    | atom a => cases d' <;> rfl
    | method hv _ name => cases d' <;> rfl
    | object e => exact absurd (Pairing.below_eq_some.mp e).2 (by omega)
  | succ d ih =>
    cases hv with
    | atom a => cases d' <;> rfl
    | method hv _ name => cases d' <;> rfl
    | @object i j e =>
      obtain ⟨e, hj⟩ := Pairing.below_eq_some.mp e
      obtain ⟨o, o', ho, ho', hm⟩ := m.row i j e
      obtain ⟨hi, hj'⟩ := a.contains e hj
      obtain ⟨d', rfl⟩ : ∃ k, d' = k + 1 := ⟨d' - 1, by omega⟩
      have hpart : ∀ {v v'}, v.Mirrors (g.below ρ (ρ j)) v' →
          h.viewIn d (i :: as) v = h'.viewIn d' (j :: as') v' :=
        fun hv => ih hv (by omega) (by omega) (a.cons e hj)
      have hparts : ∀ {vs vs'}, Value.AllMirror (g.below ρ (ρ j)) vs vs' →
          vs.map (h.viewIn d (i :: as)) = vs'.map (h'.viewIn d' (j :: as')) :=
        fun hvs => List.Forall₂.map_eq (hvs.imp fun _ _ => hpart)
      rw [viewIn, viewIn, hi, hj', ho, ho']
      cases hm with
      | list hvs | tuple hvs =>
        dsimp only
        rw [hparts hvs]
      | dict hes =>
        dsimp only
        rw [List.Forall₂.map_eq (hes.imp fun _ _ he => by rw [hpart he.1, hpart he.2])]
      | loop e p =>
        dsimp only
        rw [m.loopText_eq (Pairing.below_extends _ _ e) p]

/-- What is seen of a value is the same. -/
theorem view_eq (m : h.Mirrors ρ g h') (hv : v.Mirrors g v') : h.view v = h'.view v' := by
  have hsize := m.size_le
  exact m.viewIn_eq (hv.mono (m.extends_below (Nat.le_refl _))) (by omega) (by omega) (.nil _)

/-! ### Attributes and items -/

theorem rel_method (hv : v.Mirrors g v') (own : v.isMethod = false) (methods : List String)
    (name : String) :
    Option.Rel (Value.Mirrors g) (method? methods v name) (method? methods v' name) := by
  rw [method?, method?]
  split
  · exact .some (.method hv own name)
  · exact .none

theorem rel_or {x x' y y' : Option Value} (hx : Option.Rel (Value.Mirrors g) x x')
    (hy : Option.Rel (Value.Mirrors g) y y') :
    Option.Rel (Value.Mirrors g) (x.or y) (x'.or y') := by
  cases hx with
  | some h => exact .some h
  | none => exact hy

theorem rel_atomAttribute (a : Atom) (name : String) :
    Option.Rel (Value.Mirrors g) (a.attribute? name) (a.attribute? name) := by
  have hint : ∀ n, Option.Rel (Value.Mirrors g) (intPart? n name) (intPart? n name) := by
    intro n
    rw [intPart?.eq_def]
    split
    · exact .some (.atom _)
    · exact .some (.atom _)
    · exact .some (.atom _)
    · exact .some (.atom _)
    · exact .none
  have hfloat : ∀ x, Option.Rel (Value.Mirrors g) (floatPart? x name) (floatPart? x name) := by
    intro x
    rw [floatPart?.eq_def]
    split
    · exact .some (.atom _)
    · exact .some (.atom _)
    · exact .none
  cases a with
  | none => exact .none
  | bool b => exact rel_or (hint _) (rel_method (.atom _) rfl ..)
  | int n => exact rel_or (hint _) (rel_method (.atom _) rfl ..)
  | float x => exact rel_or (hfloat _) (rel_method (.atom _) rfl ..)
  | str s => exact rel_method (.atom _) rfl ..

theorem rel_loopAttribute (m : h.Mirrors ρ g h') (hv : v.Mirrors g v') (own : v.isMethod = false)
    (e : g i = some j) (p : Nat) (name : String) :
    Option.Rel (Value.Mirrors g) (LoopState.attribute? h v ⟨i, p⟩ name)
      (LoopState.attribute? h' v' ⟨j, p⟩ name) := by
  rw [LoopState.attribute?.eq_def, LoopState.attribute?.eq_def, (m.listItems e).length_eq]
  dsimp only
  split
  · exact .some (.atom _)
  · exact .some (.atom _)
  · exact .some (.atom _)
  · exact .some (.atom _)
  · exact .some (.atom _)
  · exact .some (.method hv own _)
  · exact .some (.object e)
  · exact .some (.atom _)
  · exact .none

/-- An attribute is the same: data and loops raise no faults of their own. -/
theorem rel_attribute (m : h.Mirrors ρ g h') (hv : v.Mirrors g v') (name : String) :
    ∃ x x', h.attribute? v name = .ok x ∧ h'.attribute? v' name = .ok x' ∧
      Option.Rel (Value.Mirrors g) x x' := by
  cases hv with
  | atom a => exact ⟨_, _, rfl, rfl, rel_atomAttribute a name⟩
  | method hv _ n => exact ⟨_, _, rfl, rfl, .none⟩
  | object e =>
    have hv : Value.Mirrors g _ _ := .object e
    obtain ⟨o, o', ho, ho', hm⟩ := m.objects e
    rw [attribute?, attribute?, ho, ho']
    cases hm with
    | list _ | tuple _ | dict _ => exact ⟨_, _, rfl, rfl, rel_method hv rfl ..⟩
    | loop el p => exact ⟨_, _, rfl, rfl, m.rel_loopAttribute hv rfl el p name⟩

/-- Whether a value is equal to an atom does not depend on the numbers of objects. -/
theorem equalItems_atom (hv : v.Mirrors g v') (a : Atom) :
    h.equalItems v (.atom a) = h'.equalItems v' (.atom a) := by
  rw [equalItems, equalItems, deepest, deepest]
  unfold sameOrEqual
  cases hv with
  | atom b => simp only [same, isEmptyTuple, objectOf?, Bool.and_false]
  | object e => simp [same, isEmptyTuple, objectOf?]
  | method hv _ n => simp [same, isEmptyTuple, objectOf?]

theorem rel_lookupKey {es fs : List (Value × Value)} (hes : Value.EntriesMirror g es fs) (a : Atom) :
    Option.Rel (Value.Mirrors g) (h.lookupKey? (.atom a) es) (h'.lookupKey? (.atom a) fs) := by
  rw [lookupKey?, lookupKey?]
  induction hes with
  | nil => exact .none
  | @cons e f _ _ he _ ih =>
    have heq : h.equalItems e.1 (.atom a) = h'.equalItems f.1 (.atom a) := equalItems_atom he.1 a
    rw [findEntry, findEntry, heq]
    rcases h'.equalItems f.1 (.atom a) with x | (- | -)
    · exact .none
    · exact ih
    · exact .some he.2

/-- Setting the value of an atom does to entries the same, whatever the numbers of objects are. -/
theorem setKey_mirrors {es fs : List (Value × Value)} (hes : Value.EntriesMirror g es fs) (a : Atom)
    (hv : v.Mirrors g v') :
    Value.EntriesMirror g (h.setKey (.atom a) v es) (h'.setKey (.atom a) v' fs) := by
  induction hes with
  | nil => exact .cons ⟨.atom a, hv⟩ .nil
  | @cons e f _ _ he hes ih =>
    have heq : h.equalItems e.1 (.atom a) = h'.equalItems f.1 (.atom a) := equalItems_atom he.1 a
    rw [setKey, setKey, heq]
    split
    · exact .cons ⟨he.1, hv⟩ hes
    · exact .cons he ih

/-- A key that is found to differ from an atom differs from it however deep they are compared. -/
theorem apart_atom {k : Value} {a : Atom} (hk : h.IsKey k)
    (hne : ¬ (h.equalItems k (.atom a)).toOption = some true) : h.Apart k (.atom a) := by
  intro depth e
  refine hne ?_
  have hdeep : h.equalItems k (.atom a) = .ok true := by
    have hsucc : ∃ d, h.deepest = d + 1 := ⟨_, rfl⟩
    obtain ⟨d, hd⟩ := hsucc
    rw [equalItems, hd]
    by_cases hsame : h.same k (.atom a) = true
    · exact sameOrEqual_of_same hsame _
    · cases depth with
      | zero =>
        rw [sameOrEqual, if_neg hsame] at e
        cases e
      | succ depth =>
        rw [sameOrEqual_succ_iff hsame] at e ⊢
        cases e with
        | atom e => exact .atom e
  rw [hdeep]
  rfl

/-- The keys stay as they should be. -/
theorem keyed_setKey {es : List (Value × Value)} (hes : h.Keyed es) (a : Atom) (v : Value) :
    h.Keyed (h.setKey (.atom a) v es) := by
  obtain ⟨keys, apart⟩ := hes
  -- the keys are those that were there, and the atom at most
  have hkeys : ∀ fs : List (Value × Value), ∀ e ∈ h.setKey (.atom a) v fs,
      e.1 = .atom a ∨ ∃ f ∈ fs, e.1 = f.1 := by
    intro fs
    induction fs with
    | nil => exact fun e he => .inl (congrArg Prod.fst (List.mem_singleton.mp he))
    | cons f rest ih =>
      intro e he
      rw [setKey] at he
      split at he
      · rcases List.mem_cons.mp he with rfl | he
        · exact .inr ⟨f, .head _, rfl⟩
        · exact .inr ⟨e, .tail _ he, rfl⟩
      · rcases List.mem_cons.mp he with rfl | he
        · exact .inr ⟨_, .head _, rfl⟩
        · rcases ih e he with h₁ | ⟨f', hf', h₁⟩
          · exact .inl h₁
          · exact .inr ⟨f', .tail _ hf', h₁⟩
  refine ⟨fun e he => ?_, ?_⟩
  · rcases hkeys es e he with h₁ | ⟨f, hf, h₁⟩
    · exact h₁ ▸ .atom a
    · exact h₁ ▸ keys f hf
  · induction es with
    | nil => exact List.pairwise_singleton ..
    | cons f rest ih =>
      obtain ⟨hf, hrest⟩ := List.pairwise_cons.mp apart
      rw [setKey]
      split
      · exact List.pairwise_cons.mpr ⟨hf, hrest⟩
      · next hne =>
        refine List.pairwise_cons.mpr ⟨fun e he => ?_, ih (fun e he => keys e (.tail _ he)) hrest⟩
        rcases hkeys rest e he with h₁ | ⟨f', hf', h₁⟩
        · rw [h₁]
          exact apart_atom (keys f (.head _)) hne
        · rw [h₁]
          exact hf f' hf'

theorem rel_getElem {vs vs' : List Value} (hvs : Value.AllMirror g vs vs') (n : Nat) :
    Option.Rel (Value.Mirrors g) vs[n]? vs'[n]? := by
  induction hvs generalizing n with
  | nil => exact .none
  | cons hv _ ih =>
    cases n with
    | zero => exact .some hv
    | succ n => exact ih n

/-- What an atom is the key of in a value. -/
theorem rel_item (m : h.Mirrors ρ g h') (hv : v.Mirrors g v') (a : Atom) :
    Option.Rel (Value.Mirrors g) (h.item? v (.atom a)) (h'.item? v' (.atom a)) := by
  cases hv with
  | atom b =>
    have hself : ∀ x : Option String, Option.Rel (Value.Mirrors g) (x.map .str) (x.map .str) := by
      intro x
      cases x with
      | none => exact .none
      | some s => exact .some (.atom _)
    cases b with
    | str s =>
      cases a with
      | int n =>
        cases n with
        | ofNat n =>
          have hchar := hself ((s.toList[n]?).map String.singleton)
          rw [Option.map_map] at hchar
          exact hchar
        | negSucc n => exact .none
      | none | bool _ | float _ | str _ => exact .none
    | none | bool _ | int _ | float _ => exact .none
  | method hv _ n => exact .none
  | object e =>
    obtain ⟨o, o', ho, ho', hm⟩ := m.objects e
    rw [item?.eq_def, item?.eq_def, objectOf?, objectOf?, ho, ho']
    cases hm with
    | list hvs | tuple hvs =>
      cases a with
      | int n =>
        cases n with
        | ofNat n => exact rel_getElem hvs n
        | negSucc n => exact .none
      | none | bool _ | float _ | str _ => exact .none
    | dict hes => exact rel_lookupKey hes a
    | loop e p => exact .none

/-- What a segment names in a value, or the fault of a numeral that is too long. -/
theorem rel_member (m : h.Mirrors ρ g h') (hv : v.Mirrors g v') (segment : String) :
    Likewise (Option.Rel (Value.Mirrors g)) (h.member? v segment) (h'.member? v' segment) := by
  obtain ⟨x, x', hx, hx', hr⟩ := m.rel_attribute hv segment
  have hkey : ∀ k, segmentKey segment = .ok k → ∃ a, k = .atom a := by
    intro k hk
    rw [segmentKey] at hk
    split at hk
    · split at hk
      · exact ⟨_, (Except.ok.inj hk).symm⟩
      · cases hk
    · exact ⟨_, (Except.ok.inj hk).symm⟩
  rw [member?, member?, hx, hx']
  cases hr with
  | some hw => exact .ok (.some hw)
  | none =>
    rcases hs : segmentKey segment with f | k
    · exact .error f
    · obtain ⟨a, rfl⟩ := hkey k hs
      exact .ok (m.rel_item hv a)

/-! ### Going through a value -/

theorem sizeOf_eq (m : h.Mirrors ρ g h') (hv : v.Mirrors g v') : h.sizeOf v = h'.sizeOf v' := by
  have htype := m.typeName_eq hv
  cases hv with
  | atom a => cases a <;> rfl
  | method hv _ n =>
    rw [Heap.sizeOf.eq_def, Heap.sizeOf.eq_def, htype]
    rfl
  | object e =>
    obtain ⟨o, o', ho, ho', hm⟩ := m.objects e
    rw [Heap.sizeOf.eq_def, Heap.sizeOf.eq_def, objectOf?, objectOf?, ho, ho', htype]
    cases hm with
    | list hvs | tuple hvs => exact congrArg Except.ok hvs.length_eq
    | dict hes => exact congrArg Except.ok hes.length_eq
    | loop _ _ => rfl

/-- Either there is nothing to go through in a value, or it goes through a list of values and leaves
the heap as it is. -/
theorem forEach (m : h.Mirrors ρ g h') (hv : v.Mirrors g v') (hl : h'.isLoop v' = false)
    {β : Type} (f : Value → Run Heap β) :
    (∃ vs vs', Value.AllMirror g vs vs' ∧ (Heap.forEach v f).exec h = (visit f vs).exec h ∧
      (Heap.forEach v' f).exec h' = (visit f vs').exec h') ∨
    ∃ e, (Heap.forEach v f).exec h = (.error e, h) ∧ (Heap.forEach v' f).exec h' = (.error e, h') := by
  have hrefuse : ∀ {v v'}, v.Mirrors g v' →
      ((Run.fail (notIterable (h.typeName v)) : Run Heap (List β)).exec h = (.error _, h) ∧
        (Run.fail (notIterable (h'.typeName v')) : Run Heap (List β)).exec h' = (.error _, h')) :=
    fun hv => ⟨rfl, by rw [← m.typeName_eq hv]; rfl⟩
  rw [Heap.forEach.eq_def, Heap.forEach.eq_def, Run.exec_get_bind, Run.exec_get_bind]
  cases hv with
  | atom a =>
    cases a with
    | str s =>
      refine .inl ⟨_, _, List.forall₂_map_left_iff.mpr (List.forall₂_map_right_iff.mpr ?_), rfl, rfl⟩
      exact List.forall₂_same.mpr fun _ _ => .atom _
    | none | bool _ | int _ | float _ => exact .inr ⟨_, hrefuse (.atom _)⟩
  | method hv own n => exact .inr ⟨_, hrefuse (.method hv own n)⟩
  | object e =>
    obtain ⟨o, o', ho, ho', hm⟩ := m.objects e
    dsimp only
    rw [ho, ho']
    cases hm with
    | list hvs | tuple hvs => exact .inl ⟨_, _, hvs, rfl, rfl⟩
    | dict hes =>
      refine .inl ⟨_, _, List.forall₂_map_left_iff.mpr (List.forall₂_map_right_iff.mpr ?_), rfl, rfl⟩
      exact hes.imp fun _ _ he => he.1
    | loop _ _ =>
      rw [isLoop, objectOf?, ho'] at hl
      cases hl

theorem exec_visit_pure (vs : List Value) (h : Heap) : (visit pure vs).exec h = (.ok vs, h) := by
  induction vs with
  | nil => rfl
  | cons v vs ih => rw [visit, Run.exec_bind_ok (Run.exec_pure v h), Run.exec_bind_ok ih]; rfl

/-- The items of a value that is no loop. -/
theorem itemsOf (m : h.Mirrors ρ g h') (hv : v.Mirrors g v') (hl : h'.isLoop v' = false) :
    ∃ x x', (Heap.itemsOf v).exec h = (x, h) ∧ (Heap.itemsOf v').exec h' = (x', h') ∧
      Likewise (Value.AllMirror g) x x' := by
  rcases m.forEach hv hl pure with ⟨vs, vs', hvs, e, e'⟩ | ⟨f, e, e'⟩
  · rw [exec_visit_pure] at e e'
    exact ⟨_, _, e, e', .ok hvs⟩
  · exact ⟨_, _, e, e', .error f⟩

end Heap.Mirrors

end Stencil
