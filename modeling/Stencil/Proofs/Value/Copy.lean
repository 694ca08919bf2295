/-
Stencil/Proofs/Value/Copy.lean

What a deep copy does.  `Copying.Works` is the judgment on a run from a state:
it makes a step, and when it succeeds its result is good, and when it fails it
can be caught.  Sequences compose (`Works.bind`), so each part of a copy gets a
lemma of its own: copying the parts of an object one after the other, filling a
list and a dictionary, and an object of each kind.

By induction on the depth a value is copied to its image (`works_deepCopyIn`),
and what the memo gets is done, or cut if the copy fails.
-/
import Stencil.Proofs.Value.Copying

namespace Stencil

namespace Copying

variable {α β : Type} {h : Heap} {s s' : Copying} {own : Option Nat}

/-! ### The judgment -/

/-- A run from a state makes a step; its result is good, or it fails, can be caught, and leaves a
state as it is known then. -/
structure Works (h : Heap) (own : Option Nat) (s : Copying) (act : Run Copying α)
    (good : Copying → α → Prop) (bad : Copying → Prop) : Prop where
  ok : ∀ a s', act.exec s = (.ok a, s') → Step h own True s s' ∧ good s' a
  error : ∀ e s', act.exec s = (.error e, s') →
    Step h own False s s' ∧ e.final = false ∧ bad s'

namespace Works

variable {act : Run Copying α} {good : Copying → α → Prop} {bad : Copying → Prop}

theorem of_exec_ok {a : α} (e : act.exec s = (.ok a, s')) (st : Step h own True s s')
    (ha : good s' a) : Works h own s act good bad where
  ok b t e' := by
    obtain ⟨hb, rfl⟩ := Prod.mk.inj (e.symm.trans e')
    obtain rfl := Except.ok.inj hb
    exact ⟨st, ha⟩
  error f t e' := nomatch (Prod.mk.inj (e.symm.trans e')).1

theorem of_exec_error {f : Stop} (e : act.exec s = (.error f, s')) (st : Step h own False s s')
    (hf : f.final = false) (hb : bad s') : Works h own s act good bad where
  ok b t e' := nomatch (Prod.mk.inj (e.symm.trans e')).1
  error g t e' := by
    obtain ⟨hg, rfl⟩ := Prod.mk.inj (e.symm.trans e')
    obtain rfl := Except.error.inj hg
    exact ⟨st, hf, hb⟩

theorem pure (u : Underway h s) {a : α} (ha : good s a) : Works h own s (pure a) good bad :=
  of_exec_ok rfl (.refl u) ha

theorem fail (u : Underway h s) {f : Fault} (hf : f.catchable = true) (hb : bad s) :
    Works h own s (Run.fail f) good bad := by
  refine of_exec_error rfl (.refl u) ?_ hb
  show (!f.catchable) = false
  rw [hf]
  rfl

/-- Two parts one after the other. -/
theorem bind {f : α → Run Copying β} {good' : Copying → β → Prop}
    (hact : Works h own s act good bad)
    (hown : ∀ j, own = some j → j < s.heap.objects.size)
    (hf : ∀ a s', Step h own True s s' → good s' a → Works h own s' (f a) good' bad) :
    Works h own s (act >>= f) good' bad := by
  rcases e : act.exec s with ⟨g | a, s'⟩
  · obtain ⟨st, hg, hb⟩ := hact.error g s' e
    exact of_exec_error (Run.exec_bind_error e) st hg hb
  · obtain ⟨st, ha⟩ := hact.ok a s' e
    have hrest := hf a s' st ha
    rcases e' : (f a).exec s' with ⟨g | b, s''⟩
    · obtain ⟨st', hg, hb⟩ := hrest.error g s'' e'
      exact of_exec_error ((Run.exec_bind_ok e).trans e') (st.trans st' nofun nofun hown) hg hb
    · obtain ⟨st', hb⟩ := hrest.ok b s'' e'
      exact of_exec_ok ((Run.exec_bind_ok e).trans e') (st.trans st' id id hown) hb

/-- A change of the state that is a step. -/
theorem modify_bind {g : Copying → Copying} {f : PUnit → Run Copying β}
    {good' : Copying → β → Prop} (st : Step h own True s (g s))
    (hown : ∀ j, own = some j → j < s.heap.objects.size)
    (hf : Works h own (g s) (f ⟨⟩) good' bad) :
    Works h own s (modify g >>= f) good' bad := by
  have h₁ : Works h own s (modify g) (fun s' _ => s' = g s) bad := of_exec_ok rfl st rfl
  refine h₁.bind hown fun a s' _ hs => ?_
  subst hs
  exact hf

theorem get_bind {f : Copying → Run Copying β} {good' : Copying → β → Prop}
    (hf : Works h own s (f s) good' bad) : Works h own s (get >>= f) good' bad where
  ok a s' e := hf.ok a s' ((Run.exec_get_bind f s).symm.trans e)
  error g s' e := hf.error g s' ((Run.exec_get_bind f s).symm.trans e)

/-- What is known besides, and what is not needed. -/
theorem imp {good' : Copying → α → Prop} {bad' : Copying → Prop}
    (w : Works h none s act good bad) (own : Option Nat)
    (hgood : ∀ a s', Step h none True s s' → good s' a → good' s' a)
    (hbad : ∀ s', Step h none False s s' → bad s' → bad' s') :
    Works h own s act good' bad' where
  ok a s' e := by
    obtain ⟨st, ha⟩ := w.ok a s' e
    exact ⟨st.within, hgood a s' st ha⟩
  error f s' e := by
    obtain ⟨st, hf, hb⟩ := w.error f s' e
    exact ⟨st.within, hf, hbad s' st hb⟩

end Works

/-- What a function is to do that copies values: it gives their images. -/
def Copies (h : Heap) (copy : Value → Run Copying Value) : Prop :=
  ∀ v s, h.Closed v → Underway h s →
    Works h none s (copy v)
      (fun s' w => w = image s'.memo v ∧ Settled h s'.memo v) (fun _ => True)

variable {copy : Value → Run Copying Value}

/-! ### Parts -/

/-- Induction on the values. -/
theorem works_copyAll (hc : Copies h copy) {xs : List Value} (hxs : ∀ v ∈ xs, h.Closed v)
    (u : Underway h s) :
    Works h none s (copyAll copy xs)
      (fun s' ys => ys = xs.map (image s'.memo) ∧ ∀ v ∈ xs, Settled h s'.memo v)
      (fun _ => True) := by
  induction xs generalizing s with
  | nil => exact .pure u ⟨rfl, nofun⟩
  | cons v rest ih =>
    refine (hc v s (hxs v (List.mem_cons_self ..)) u).bind nofun fun w s₁ st₁ hw => ?_
    refine (ih (fun x hx => hxs x (List.mem_cons_of_mem _ hx)) st₁.underway).bind nofun
      fun ws s₂ st₂ hws => .pure st₂.underway ?_
    obtain ⟨rfl, sv⟩ := hw
    obtain ⟨rfl, srest⟩ := hws
    refine ⟨?_, List.forall_mem_cons.mpr ⟨st₂.settled sv, srest⟩⟩
    rw [List.map_cons, st₂.image_eq sv]

theorem works_copyAttributes (hc : Copies h copy) {as : List (String × Value)}
    (has : ∀ a ∈ as, h.Closed a.2) (u : Underway h s) :
    Works h none s (copyAttributes copy as)
      (fun s' bs => bs = as.map (fun a => (a.1, image s'.memo a.2)) ∧
        ∀ a ∈ as, Settled h s'.memo a.2)
      (fun _ => as ≠ []) := by
  induction as generalizing s with
  | nil => exact .pure u ⟨rfl, nofun⟩
  | cons a rest ih =>
    have h₁ := (hc a.2 s (has a (List.mem_cons_self ..)) u).imp none
      (fun _ _ _ hw => hw) (fun _ _ _ => List.cons_ne_nil a rest)
    refine h₁.bind nofun fun w s₁ st₁ hw => ?_
    have h₂ := (ih (fun x hx => has x (List.mem_cons_of_mem _ hx)) st₁.underway).imp
      none (fun _ _ _ hw => hw) (fun _ _ _ => List.cons_ne_nil a rest)
    refine h₂.bind nofun fun ws s₂ st₂ hws => .pure st₂.underway ?_
    obtain ⟨rfl, sv⟩ := hw
    obtain ⟨rfl, srest⟩ := hws
    refine ⟨?_, List.forall_mem_cons.mpr ⟨st₂.settled sv, srest⟩⟩
    rw [List.map_cons, st₂.image_eq sv]

theorem works_copyEntries (hc : Copies h copy) {es : List (Value × Value)}
    (hes : ∀ e ∈ es, h.Closed e.1 ∧ h.Closed e.2) (u : Underway h s) :
    Works h none s (copyEntries copy es)
      (fun s' fs => fs = es.map (fun e => (image s'.memo e.1, image s'.memo e.2)) ∧
        ∀ e ∈ es, Settled h s'.memo e.1 ∧ Settled h s'.memo e.2)
      (fun _ => es ≠ []) := by
  induction es generalizing s with
  | nil => exact .pure u ⟨rfl, nofun⟩
  | cons e rest ih =>
    obtain ⟨hk, hv⟩ := hes e (List.mem_cons_self ..)
    have h₁ := (hc e.2 s hv u).imp none
      (fun _ _ _ hw => hw) (fun _ _ _ => List.cons_ne_nil e rest)
    refine h₁.bind nofun fun w s₁ st₁ hw => ?_
    have h₂ := (hc e.1 s₁ hk st₁.underway).imp none
      (fun _ _ _ hw => hw) (fun _ _ _ => List.cons_ne_nil e rest)
    refine h₂.bind nofun fun l s₂ st₂ hl => ?_
    have h₃ := (ih (fun x hx => hes x (List.mem_cons_of_mem _ hx)) st₂.underway).imp
      none (fun _ _ _ hw => hw) (fun _ _ _ => List.cons_ne_nil e rest)
    refine h₃.bind nofun fun fs s₃ st₃ hfs => .pure st₃.underway ?_
    obtain ⟨rfl, sv⟩ := hw
    obtain ⟨rfl, sk⟩ := hl
    obtain ⟨rfl, srest⟩ := hfs
    have sv₃ := st₃.settled (st₂.settled sv)
    refine ⟨?_, List.forall_mem_cons.mpr ⟨⟨st₃.settled sk, sv₃⟩, srest⟩⟩
    rw [List.map_cons, st₃.image_eq sk, st₃.image_eq (st₂.settled sv), st₂.image_eq sv]

/-! ### Filling -/

/-- The copy `j` of the object `i`, which is `o`, is `o'` so far. -/
structure Filling (h : Heap) (s : Copying) (i j : Nat) (o o' : Object) : Prop where
  known : s.memo.lookup i = some (.object j)
  original : h.get? i = some o
  copy : s.heap.get? j = some o'
  type : o'.typeName = o.typeName
  notTuple : ∀ xs, o ≠ .tuple xs

namespace Filling

variable {i j : Nat} {o o' : Object}

/-- What fills nothing leaves it as it is. -/
theorem step (f : Filling h s i j o o') {complete : Prop} (st : Step h none complete s s') :
    Filling h s' i j o o' where
  known := st.memo i _ f.known
  original := f.original
  copy := by rw [st.same j (Heap.lt_size f.copy) nofun, f.copy]
  type := f.type
  notTuple := f.notTuple

/-- The state with more in the copy. -/
theorem put (f : Filling h s i j o o') (o'' : Object) (htype : o''.typeName = o.typeName) :
    Filling h { s with heap := s.heap.put j o'' } i j o o'' where
  known := f.known
  original := f.original
  copy := by
    rw [Heap.get?_put, if_pos rfl, f.copy]
    rfl
  type := htype
  notTuple := f.notTuple

theorem cut (f : Filling h s i j o o') (hlt : o'.parts.length < o.parts.length) :
    Cut h s i j := ⟨o, o', f.original, f.copy, hlt⟩

theorem own_lt (f : Filling h s i j o o') :
    ∀ k, some j = some k → k < s.heap.objects.size := by
  intro k hk
  obtain rfl := Option.some.inj hk
  exact Heap.lt_size f.copy

end Filling

/-- Induction on the items that are left; those before are in the copy. -/
theorem works_fillList (hc : Copies h copy) {i j : Nat} (before : List Value) {xs : List Value}
    (u : Underway h s)
    (f : Filling h s i j (.list (before ++ xs)) (.list (before.map (image s.memo))))
    (hbefore : ∀ v ∈ before, Settled h s.memo v) (hxs : ∀ v ∈ xs, h.Closed v) :
    Works h (some j) s (fillList copy j xs) (fun s' _ => Done h s' i j) (fun s' => Cut h s' i j) := by
  induction xs generalizing s before with
  | nil =>
    rw [List.append_nil] at f
    exact .pure u ⟨_, _, f.original, f.copy, rfl, rfl, hbefore⟩
  | cons v rest ih =>
    have hlt : (before.map (image s.memo)).length < (before ++ v :: rest).length := by
      rw [List.length_map, List.length_append, List.length_cons]
      omega
    have h₁ := (hc v s (hxs v (List.mem_cons_self ..)) u).imp (some j)
      (fun _ s' st hw => And.intro hw (f.step st)) (fun s' st _ => (f.step st).cut hlt)
    refine h₁.bind f.own_lt fun w s₁ st₁ hw => ?_
    obtain ⟨⟨rfl, sv⟩, f₁⟩ := hw
    have hitems : s₁.heap.listItems j = before.map (image s.memo) := by
      rw [Heap.listItems, f₁.copy]
    have hmap : before.map (image s.memo) ++ [image s₁.memo v]
        = (before ++ [v]).map (image s₁.memo) := by
      rw [List.map_append, st₁.map_image_eq hbefore]
      rfl
    have hput := st₁.underway.put (.list ((before ++ [v]).map (image s₁.memo)))
      f₁.known f₁.original f₁.notTuple rfl
    refine Works.modify_bind ?_ f₁.own_lt ?_ <;> rw [hitems, hmap]
    · exact hput
    · refine ih (before ++ [v]) hput.underway ?_ ?_ fun x hx => hxs x (List.mem_cons_of_mem _ hx)
      · have f₂ := f₁.put (.list ((before ++ [v]).map (image s₁.memo))) rfl
        rw [List.append_cons before v rest] at f₂
        exact f₂
      · refine List.forall_mem_append.mpr ⟨fun x hx => st₁.settled (hbefore x hx), ?_⟩
        exact List.forall_mem_singleton.mpr sv

/-- Induction on the entries that are left; those before are in the copy, and no key of them is
equal to one that is left. -/
theorem works_fillDict (sound : h.Sound) (hc : Copies h copy) {i j : Nat}
    (before : List (Value × Value)) {es : List (Value × Value)} (u : Underway h s)
    (f : Filling h s i j (.dict (before ++ es))
      (.dict (before.map fun e => (image s.memo e.1, image s.memo e.2))))
    (hbefore : ∀ e ∈ before, Settled h s.memo e.1 ∧ Settled h s.memo e.2) :
    Works h (some j) s (fillDict copy j es) (fun s' _ => Done h s' i j)
      (fun s' => Cut h s' i j) := by
  induction es generalizing s before with
  | nil =>
    rw [List.append_nil] at f
    refine .pure u ⟨_, _, f.original, f.copy, rfl, Object.flat_map _ before, fun v hv => ?_⟩
    obtain ⟨e, he, rfl | rfl⟩ := Object.mem_flat.mp hv
    · exact (hbefore e he).1
    · exact (hbefore e he).2
  | cons e rest ih =>
    have hmem : e ∈ before ++ e :: rest := List.mem_append_right _ (List.mem_cons_self ..)
    have hclosed : ∀ x ∈ before ++ e :: rest, h.Closed x.1 ∧ h.Closed x.2 := fun x hx =>
      ⟨sound.closed i _ f.original _ (Object.mem_flat.mpr ⟨x, hx, .inl rfl⟩),
        sound.closed i _ f.original _ (Object.mem_flat.mpr ⟨x, hx, .inr rfl⟩)⟩
    have hlt : (Object.dict (before.map fun e => (image s.memo e.1, image s.memo e.2))).parts.length
        < (Object.dict (before ++ e :: rest)).parts.length := by
      rw [Object.parts, Object.parts, Object.length_flat, Object.length_flat, List.length_map,
        List.length_append, List.length_cons]
      omega
    -- the value of the entry, and then its key
    have h₁ := (hc e.2 s (hclosed e hmem).2 u).imp (some j)
      (fun _ s' st hw => And.intro hw (f.step st)) (fun s' st _ => (f.step st).cut hlt)
    refine h₁.bind f.own_lt fun w s₁ st₁ hw => ?_
    obtain ⟨⟨rfl, sv⟩, f₁⟩ := hw
    have h₂ := (hc e.1 s₁ (hclosed e hmem).1 st₁.underway).imp (some j)
      (fun _ s' st hl => And.intro hl (f₁.step st)) (fun s' st _ => (f₁.step st).cut hlt)
    refine h₂.bind f₁.own_lt fun l s₂ st₂ hl => ?_
    obtain ⟨⟨rfl, sk⟩, f₂⟩ := hl
    have sbefore : ∀ x ∈ before, Settled h s₂.memo x.1 ∧ Settled h s₂.memo x.2 := fun x hx =>
      ⟨st₂.settled (st₁.settled (hbefore x hx).1), st₂.settled (st₁.settled (hbefore x hx).2)⟩
    have hsame : (before.map fun x => (image s.memo x.1, image s.memo x.2))
        = before.map fun x => (image s₂.memo x.1, image s₂.memo x.2) := by
      refine List.map_congr_left fun x hx => ?_
      rw [st₂.image_eq (st₁.settled (hbefore x hx).1), st₁.image_eq (hbefore x hx).1,
        st₂.image_eq (st₁.settled (hbefore x hx).2), st₁.image_eq (hbefore x hx).2]
    rw [hsame] at f₂
    have hentries : dictEntries s₂.heap j
        = before.map fun x => (image s₂.memo x.1, image s₂.memo x.2) := by
      rw [dictEntries, f₂.copy]
    have hset : s₂.heap.setKey (image s₂.memo e.1) (image s₁.memo e.2) (dictEntries s₂.heap j)
        = (before ++ [e]).map fun x => (image s₂.memo x.1, image s₂.memo x.2) := by
      rw [hentries, Heap.setKey_eq_append, List.map_append, ← st₂.image_eq sv]
      · rfl
      · intro y hy
        obtain ⟨x, hx, rfl⟩ := List.mem_map.mp hy
        have hapart := (List.pairwise_append.mp (sound.apart i _ f.original)).2.2 x hx e
          (List.mem_cons_self ..)
        exact st₂.underway.apart_image sound (hclosed x (List.mem_append_left _ hx)).1
          (hclosed e hmem).1 (sound.hashable i _ f.original x (List.mem_append_left _ hx))
          (sound.hashable i _ f.original e hmem) (sbefore x hx).1 sk hapart
    have hput := st₂.underway.put
      (.dict ((before ++ [e]).map fun x => (image s₂.memo x.1, image s₂.memo x.2)))
      f₂.known f₂.original f₂.notTuple rfl
    refine Works.modify_bind ?_ f₂.own_lt ?_ <;> rw [hset]
    · exact hput
    · refine ih (before ++ [e]) hput.underway ?_ ?_
      · have f₃ := f₂.put
          (.dict ((before ++ [e]).map fun x => (image s₂.memo x.1, image s₂.memo x.2))) rfl
        rw [List.append_cons before e rest] at f₃
        exact f₃
      · exact List.forall_mem_append.mpr
          ⟨sbefore, List.forall_mem_singleton.mpr ⟨sk, st₂.settled sv⟩⟩

/-! ### Objects -/

theorem notFixed_of_notTuple {i : Nat} {o : Object} (e : h.get? i = some o)
    (ho : ∀ xs, o ≠ .tuple xs) : ¬ Fixed h (.object i) := by
  intro hf
  cases hf with
  | tuple e' _ => exact ho _ (Option.some.inj (e.symm.trans e'))

/-- The copy of an object that is begun first and filled then. -/
theorem works_begin {i : Nat} {o o' : Object} (fill : Nat → Run Copying Unit) (u : Underway h s)
    (e : h.get? i = some o) (hi : s.memo.lookup i = none) (ho : ∀ xs, o ≠ .tuple xs)
    (htype : o'.typeName = o.typeName)
    (hfill : ∀ s j, Underway h s → Filling h s i j o o' →
      Works h (some j) s (fill j) (fun s' _ => Done h s' i j) (fun s' => Cut h s' i j)) :
    Works h none s
      (do
        let j ← begin i o'
        fill j
        return .object j)
      (fun s' w => w = image s'.memo (.object i) ∧ Settled h s'.memo (.object i))
      (fun _ => True) := by
  have f : Fresh h s i o o' :=
    ⟨e, hi, notFixed_of_notTuple e ho, htype, fun xs hxs => absurd hxs (ho xs)⟩
  have hnew : (s.begunAt i o').memo.lookup i = some (.object s.heap.objects.size) := by
    rw [lookup_begunAt, if_pos rfl]
  have hcopy : (s.begunAt i o').heap.get? s.heap.objects.size = some o' := by
    rw [get?_begunAt, if_pos rfl]
  have hw := hfill _ _ (f.underway u) ⟨hnew, e, hcopy, htype, ho⟩
  rcases he : (fill s.heap.objects.size).exec (s.begunAt i o') with ⟨g | ⟨⟩, s'⟩
  · obtain ⟨st, hg, hcut⟩ := hw.error g s' he
    have hexec : (do let j ← begin i o'; fill j; return Value.object j).exec s = (.error g, s') := by
      rw [Run.exec_bind_ok (exec_begin i o' s), Run.exec_bind_error he]
    exact .of_exec_error hexec (f.step st (.inr ⟨not_false, hcut⟩)) hg trivial
  · obtain ⟨st, hdone⟩ := hw.ok () s' he
    have hlookup := st.memo i _ hnew
    have hexec : (do let j ← begin i o'; fill j; return Value.object j).exec s
        = (.ok (.object s.heap.objects.size), s') := by
      rw [Run.exec_bind_ok (exec_begin i o' s), Run.exec_bind_ok he]
      rfl
    refine .of_exec_ok hexec (f.step st (.inl hdone)) ⟨?_, .inl ?_⟩
    · rw [image, hlookup, Option.getD_some]
    · rw [hlookup]
      exact Option.some_ne_none _

/-- The copy of a tuple is begun when its items are copied, so it is done at once. -/
theorem works_begin_tuple {i : Nat} {xs ys : List Value} (u : Underway h s)
    (f : Fresh h s i (.tuple xs) (.tuple ys)) :
    Works h none s
      (do
        let j ← begin i (.tuple ys)
        return .object j)
      (fun s' w => w = image s'.memo (.object i) ∧ Settled h s'.memo (.object i))
      (fun _ => True) := by
  have u' := f.underway u
  have hnew : (s.begunAt i (.tuple ys)).memo.lookup i
      = some (.object s.heap.objects.size) := by
    rw [lookup_begunAt, if_pos rfl]
  obtain ⟨-, o, o', e, -, -, hdone⟩ := u'.begun i _ hnew
  obtain rfl := Option.some.inj (f.original.symm.trans e)
  have hexec : (do let j ← begin i (.tuple ys); return Value.object j).exec s
      = (.ok (.object s.heap.objects.size), s.begunAt i (.tuple ys)) := rfl
  refine .of_exec_ok hexec (f.step (.refl u') (.inl (hdone xs rfl))) ⟨?_, .inl ?_⟩
  · rw [image, hnew, Option.getD_some]
  · rw [hnew]
    exact Option.some_ne_none _

/-- Copies the items of a thing, if it has any. -/
def copyItems (copy : Value → Run Copying Value) :
    Option (List (Value × Value)) → Run Copying (Option (List (Value × Value)))
  | some es => do
    let es ← copyEntries copy es
    pure (some es)
  | none => pure none

/-- The items of a thing are copied, and then its attributes. -/
def fillThing (copy : Value → Run Copying Value) (t : Thing) (j : Nat) : Run Copying Unit := do
  let items ← copyItems copy t.items
  let attributes ← copyAttributes copy t.attributes
  put j (.thing { t with attributes, items })

/-- The list of a loop is copied. -/
def fillLoop (copy : Value → Run Copying Value) (l : LoopState) (j : Nat) : Run Copying Unit := do
  match ← copy (.object l.items) with
  | .object items => put j (.loop (some { l with items }))
  | _ => pure ()

theorem copyObject_thing (copy : Value → Run Copying Value) (i : Nat) (t : Thing) :
    copyObject copy i (some (.thing t)) = do
      let j ← begin i (.thing ⟨none, [], t.items.map fun _ => [], []⟩)
      fillThing copy t j
      return .object j := by
  obtain ⟨name, attributes, - | es, raising⟩ := t <;>
    simp only [copyObject, fillThing, copyItems, bind_assoc]

/-- A thing is known by whether it has items, already when its copy is begun. -/
theorem typeName_begun (t : Thing) :
    (Object.thing ⟨none, [], t.items.map fun _ => [], []⟩).typeName =
      (Object.thing t).typeName := by
  rw [Object.typeName, Object.typeName]
  cases t.items <;> rfl

theorem copyObject_loop (copy : Value → Run Copying Value) (i : Nat) (l : LoopState) :
    copyObject copy i (some (.loop (some l))) = do
      let j ← begin i (.loop none)
      fillLoop copy l j
      return .object j := by
  simp only [copyObject, fillLoop, bind_assoc]
  refine congrArg (begin i (.loop none) >>= ·) (funext fun j => ?_)
  refine congrArg (copy (.object l.items) >>= ·) (funext fun v => ?_)
  cases v <;> rfl

theorem works_copyItems (hc : Copies h copy) {items : Option (List (Value × Value))}
    (hclosed : ∀ v ∈ Object.flat (items.getD []), h.Closed v) (u : Underway h s) :
    Works h none s (copyItems copy items)
      (fun s' r => r = items.map (fun es => es.map fun e =>
          (image s'.memo e.1, image s'.memo e.2)) ∧
        ∀ v ∈ Object.flat (items.getD []), Settled h s'.memo v)
      (fun _ => items.getD [] ≠ []) := by
  rcases items with - | es
  · exact .pure u ⟨rfl, nofun⟩
  · have hes : ∀ e ∈ es, h.Closed e.1 ∧ h.Closed e.2 := fun e he =>
      ⟨hclosed _ (Object.mem_flat.mpr ⟨e, he, .inl rfl⟩),
        hclosed _ (Object.mem_flat.mpr ⟨e, he, .inr rfl⟩)⟩
    refine (works_copyEntries hc hes u).bind nofun fun fs s₁ st₁ hfs => .pure st₁.underway ?_
    obtain ⟨rfl, hsettled⟩ := hfs
    refine ⟨rfl, fun v hv => ?_⟩
    obtain ⟨e, he, rfl | rfl⟩ := Object.mem_flat.mp hv
    · exact (hsettled e he).1
    · exact (hsettled e he).2

theorem works_fillThing (sound : h.Sound) (hc : Copies h copy) {i j : Nat} {t : Thing}
    (u : Underway h s)
    (f : Filling h s i j (.thing t) (.thing ⟨none, [], t.items.map fun _ => [], []⟩)) :
    Works h (some j) s (fillThing copy t j) (fun s' _ => Done h s' i j) (fun s' => Cut h s' i j) := by
  have hclosed : ∀ v ∈ (Object.thing t).parts, h.Closed v := sound.closed i _ f.original
  have hempty : (Object.thing ⟨none, [], t.items.map fun _ => [], []⟩).parts = [] := by
    cases t.items <;> rfl
  have hlen : (Object.thing t).parts.length
      = 2 * (t.items.getD []).length + t.attributes.length := by
    rw [Object.parts, List.length_append, Object.length_flat, List.length_map]
  -- if a part cannot be copied there is one, and the copy has none yet
  have h₁ := (works_copyItems hc (fun v hv => hclosed v (List.mem_append_left _ hv)) u).imp
    (some j) (fun _ s' st hw => And.intro hw (f.step st)) fun s' st hne => by
      refine (f.step st).cut ?_
      have hpos := List.length_pos_iff.mpr hne
      rw [hempty, hlen, List.length_nil]
      omega
  refine Works.bind h₁ f.own_lt fun items s₁ st₁ hw => ?_
  obtain ⟨⟨rfl, sitems⟩, f₁⟩ := hw
  have has : ∀ a ∈ t.attributes, h.Closed a.2 := fun a ha =>
    hclosed _ (List.mem_append_right _ (List.mem_map_of_mem ha))
  have h₂ := (works_copyAttributes hc has st₁.underway).imp
    (some j) (fun _ s' st hw => And.intro hw (f₁.step st)) fun s' st hne => by
      refine (f₁.step st).cut ?_
      have hpos := List.length_pos_iff.mpr hne
      rw [hempty, hlen, List.length_nil]
      omega
  refine Works.bind h₂ f₁.own_lt fun attributes s₂ st₂ hw => ?_
  obtain ⟨⟨rfl, sattributes⟩, f₂⟩ := hw
  have hput := st₂.underway.put (.thing (t.mapParts (image s₂.memo)))
    f₂.known f₂.original f₂.notTuple (Thing.typeName_mapParts ..)
  have hsame : t.items.map (fun es => es.map fun e => (image s₁.memo e.1, image s₁.memo e.2))
      = t.items.map fun es => es.map fun e => (image s₂.memo e.1, image s₂.memo e.2) := by
    rcases hi : t.items with - | es
    · rfl
    · rw [hi] at sitems
      refine congrArg some (List.map_congr_left fun e he => ?_)
      rw [st₂.image_eq (sitems _ (Object.mem_flat.mpr ⟨e, he, .inl rfl⟩)),
        st₂.image_eq (sitems _ (Object.mem_flat.mpr ⟨e, he, .inr rfl⟩))]
  rw [hsame]
  refine .of_exec_ok rfl hput ⟨_, _, f₂.original, (f₂.put _ (Thing.typeName_mapParts ..)).copy,
    Thing.shape_mapParts .., Thing.parts_mapParts .., fun v hv => ?_⟩
  rcases List.mem_append.mp hv with hv | hv
  · exact st₂.settled (sitems v hv)
  · obtain ⟨a, ha, rfl⟩ := List.mem_map.mp hv
    exact sattributes a ha

theorem works_fillLoop (sound : h.Sound) (hc : Copies h copy) {i j : Nat} {l : LoopState}
    (u : Underway h s) (f : Filling h s i j (.loop (some l)) (.loop none)) :
    Works h (some j) s (fillLoop copy l j) (fun s' _ => Done h s' i j)
      (fun s' => Cut h s' i j) := by
  have hmem : Value.object l.items ∈ (Object.loop (some l)).parts := List.mem_singleton_self _
  have h₁ := (hc _ s (sound.closed i _ f.original _ hmem) u).imp (some j)
    (fun _ s' st hw => And.intro hw (f.step st))
    (fun s' st _ => (f.step st).cut (Nat.lt_succ_self 0))
  refine Works.bind h₁ f.own_lt fun w s₁ st₁ hw => ?_
  obtain ⟨⟨rfl, hsettled⟩, f₁⟩ := hw
  obtain ⟨m, hm⟩ : ∃ m, image s₁.memo (.object l.items) = .object m := by
    rcases st₁.underway.image_object l.items with ⟨-, e⟩ | ⟨m, -, e, -⟩
    · exact ⟨_, e⟩
    · exact ⟨m, e⟩
  rw [hm]
  have hput := st₁.underway.put (.loop (some { l with items := m }))
    f₁.known f₁.original f₁.notTuple rfl
  have f₂ := f₁.put (.loop (some { l with items := m })) rfl
  refine .of_exec_ok rfl hput ⟨_, _, f₁.original, f₂.copy, rfl, ?_, ?_⟩
  · exact congrArg (fun v => [v]) hm.symm
  · exact List.forall_mem_singleton.mpr hsettled

/-- Copies of the parts make a copy of the object. -/
theorem works_copyObject (sound : h.Sound) (hc : Copies h copy) {i : Nat} {o : Object}
    (u : Underway h s) (e : h.get? i = some o) (hi : s.memo.lookup i = none) :
    Works h none s (copyObject copy i (some o))
      (fun s' w => w = image s'.memo (.object i) ∧ Settled h s'.memo (.object i))
      (fun _ => True) := by
  have hclosed := sound.closed i o e
  cases o with
  | list xs =>
    exact works_begin _ u e hi nofun rfl fun s j u f => works_fillList hc [] u f nofun hclosed
  | dict es =>
    exact works_begin _ u e hi nofun rfl fun s j u f => works_fillDict sound hc [] u f nofun
  | thing t =>
    rw [copyObject_thing]
    exact works_begin _ u e hi nofun (typeName_begun t) fun s j u f => works_fillThing sound hc u f
  | loop l =>
    rcases l with - | l
    · refine works_begin (fun _ => pure ()) u e hi nofun rfl fun s j u f => .pure u ?_
      exact ⟨_, _, f.original, f.copy, rfl, rfl, nofun⟩
    · rw [copyObject_loop]
      exact works_begin _ u e hi nofun rfl fun s j u f => works_fillLoop sound hc u f
  | generator xs => exact .fail u rfl trivial
  | «sealed» text => exact .fail u rfl trivial
  | tuple xs =>
    refine (works_copyAll hc hclosed u).bind nofun fun ys s₁ st₁ hys => ?_
    obtain ⟨rfl, sxs⟩ := hys
    refine .get_bind ?_
    -- copying the items may have copied the tuple, when it is inside itself
    rcases hi₁ : s₁.memo.lookup i with - | v
    · dsimp only
      split
      · next hsame =>
        have hself := List.map_inj_left.mp (hsame.symm.trans (List.map_id' xs).symm)
        have hf : Fixed h (.object i) := .tuple e fun v hv =>
          st₁.underway.fixed_of_image (hclosed v hv) (sxs v hv) (hself v hv)
        exact .pure st₁.underway ⟨(st₁.underway.image_fixed hf).symm, .inr hf⟩
      · next hdiff =>
        have hnot : ¬ Fixed h (.object i) := fun hf => by
          cases hf with
          | tuple e' hxs =>
            obtain rfl := Object.tuple.inj (Option.some.inj (e.symm.trans e'))
            have hself := List.map_congr_left fun v hv => st₁.underway.image_fixed (hxs v hv)
            exact hdiff ((List.map_id' xs).symm.trans hself.symm)
        exact works_begin_tuple st₁.underway
          ⟨e, hi₁, hnot, rfl, fun zs hzs => Object.tuple.inj hzs ▸ ⟨rfl, sxs⟩⟩
    · obtain ⟨j, rfl, -⟩ := st₁.underway.entry i v hi₁
      refine .pure st₁.underway ⟨?_, .inl ?_⟩
      · rw [image, hi₁, Option.getD_some]
      · rw [hi₁]
        exact Option.some_ne_none _

/-- Induction on the depth: a value is copied to its image. -/
theorem copies_deepCopyIn (sound : h.Sound) (depth : Nat) : Copies h (deepCopyIn depth) := by
  induction depth with
  | zero =>
    intro v s hv u
    cases v with
    | atom a => exact .pure u ⟨rfl, trivial⟩
    | method v name => exact .fail u rfl trivial
    | object i => exact .fail u rfl trivial
  | succ depth ih =>
    intro v s hv u
    cases v with
    | atom a => exact .pure u ⟨rfl, trivial⟩
    | method v name =>
      rw [deepCopyIn]
      split
      · next hn =>
        subst hn
        refine (ih v s hv u).bind nofun fun w s₁ st₁ hw => .pure st₁.underway ?_
        obtain ⟨rfl, hsettled⟩ := hw
        exact ⟨by rw [image, if_pos rfl], fun _ => hsettled⟩
      · next hn => exact .pure u ⟨by rw [image, if_neg hn], fun hcycle => absurd hcycle hn⟩
    | object i =>
      obtain ⟨o, e⟩ := Table.exists_get? hv
      have e' : s.heap.get? i = some o := (u.originals i hv).trans e
      rw [deepCopyIn]
      refine .get_bind ?_
      rcases hi : s.memo.lookup i with - | w
      · dsimp only
        rw [e']
        exact works_copyObject sound ih u e hi
      · obtain ⟨j, rfl, -⟩ := u.entry i w hi
        refine .pure u ⟨?_, .inl ?_⟩
        · rw [image, hi, Option.getD_some]
        · rw [hi]
          exact Option.some_ne_none _

end Copying

end Stencil
