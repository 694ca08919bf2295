/-
Stencil/Proofs/Value/Tracking.lean

Copies of mirrored data.  Values of a first heap are copied, and the second heap,
which the first one mirrors, rests meanwhile.  A copy that is complete gets the
partner of its original.  So the first heap goes on to mirror the second one,
and the copy of a value mirrors what the value does (`grows_deepCopy`).

An object is copied once its parts are, and these rank lower.  So while an object
is being filled, the memo is known to be right for what ranks lower than it; the
copy itself, which has no partner yet, is met by nobody.  Data have an end, so
no copy of them fails.
-/
import Stencil.Proofs.Value.Copy
import Stencil.Proofs.Value.Mirror

namespace Stencil

/-- Whether entries have keys as they should does not depend on their values. -/
theorem Heap.Keyed.congr {h : Heap} {es fs : List (Value × Value)} (k : h.Keyed es)
    (e : es.map Prod.fst = fs.map Prod.fst) : h.Keyed fs where
  keys f hf := by
    have hmem : f.1 ∈ es.map Prod.fst := e ▸ List.mem_map_of_mem hf
    obtain ⟨f', hf', hkey⟩ := List.mem_map.mp hmem
    exact hkey ▸ k.keys f' hf'
  apart := by
    have hpairs : (es.map Prod.fst).Pairwise h.Apart := List.pairwise_map.mpr k.apart
    exact List.pairwise_map.mp (e ▸ hpairs)

namespace Copying

variable {α β : Type} {ρ : Nat → Nat} {g₀ g g' g'' : Pairing} {h₀ h' : Heap} {m n : Nat}
  {own : Option Nat} {s s' s'' : Copying}

/-! ### States -/

/-- A state of copying values of the heap `h₀`, which mirrored `h'` by the partners `g₀`.  With the
partners `g` its heap does so too, and for what ranks below `n` the memo holds copies with the right
partner. -/
structure Tracks (ρ : Nat → Nat) (g₀ : Pairing) (h₀ h' : Heap) (n : Nat) (g : Pairing)
    (s : Copying) : Prop where
  heap : s.heap.Mirrors ρ g h'
  «extends» : g₀.Extends g
  size_le : h₀.objects.size ≤ s.heap.objects.size
  originals : ∀ i, i < h₀.objects.size → s.heap.get? i = h₀.get? i
  copies : ∀ i j v, g₀ i = some j → ρ j < n → s.memo.lookup i = some v → v.Mirrors g (.object j)
  /-- Keys are their own copies. -/
  keys : ∀ i, h₀.IsKey (.object i) → s.memo.lookup i = none

/-- What a part of a copy of what ranks below `n` does: no object changes that is there but `own`,
which is being filled, and none of them gets a partner. -/
structure Follows (ρ : Nat → Nat) (g₀ : Pairing) (h₀ h' : Heap) (n : Nat) (own : Option Nat)
    (g : Pairing) (s : Copying) (g' : Pairing) (s' : Copying) : Prop where
  tracks : Tracks ρ g₀ h₀ h' n g' s'
  «extends» : g.Extends g'
  size_le : s.heap.objects.size ≤ s'.heap.objects.size
  rows : ∀ i, i < s.heap.objects.size → own ≠ some i → s'.heap.get? i = s.heap.get? i
  partners : ∀ i, i < s.heap.objects.size → g' i = g i
  memo : ∀ i, (∀ j, g₀ i = some j → n ≤ ρ j) → s'.memo.lookup i = s.memo.lookup i

/-- At the beginning the memo is empty. -/
theorem Tracks.start (hm : h₀.Mirrors ρ g₀ h') (n : Nat) :
    Tracks ρ g₀ h₀ h' n g₀ ⟨h₀, [], [], []⟩ where
  heap := hm
  «extends» := .refl g₀
  size_le := Nat.le_refl _
  originals _ _ := rfl
  copies _ _ _ _ _ e := by cases e
  keys _ _ := rfl

/-- What is right below some number is right below a lower one. -/
theorem Tracks.mono (t : Tracks ρ g₀ h₀ h' n g s) (h : m ≤ n) : Tracks ρ g₀ h₀ h' m g s :=
  { t with copies := fun i j v e hj => t.copies i j v e (Nat.lt_of_lt_of_le hj h) }

namespace Follows

theorem refl (t : Tracks ρ g₀ h₀ h' n g s) : Follows ρ g₀ h₀ h' n own g s g s where
  tracks := t
  «extends» := .refl g
  size_le := Nat.le_refl _
  rows _ _ _ := rfl
  partners _ _ := rfl
  memo _ _ := rfl

theorem trans (f : Follows ρ g₀ h₀ h' n own g s g' s')
    (f' : Follows ρ g₀ h₀ h' n own g' s' g'' s'') : Follows ρ g₀ h₀ h' n own g s g'' s'' where
  tracks := f'.tracks
  «extends» := f.extends.trans f'.extends
  size_le := Nat.le_trans f.size_le f'.size_le
  rows i hi hown := by
    rw [f'.rows i (Nat.lt_of_lt_of_le hi f.size_le) hown, f.rows i hi hown]
  partners i hi := by
    rw [f'.partners i (Nat.lt_of_lt_of_le hi f.size_le), f.partners i hi]
  memo i hi := (f'.memo i hi).trans (f.memo i hi)

/-- What fills nothing may be part of filling an object. -/
theorem within (f : Follows ρ g₀ h₀ h' n none g s g' s') (own : Option Nat) :
    Follows ρ g₀ h₀ h' n own g s g' s' :=
  { f with rows := fun i hi _ => f.rows i hi (Option.some_ne_none i).symm }

/-- What copies lower parts keeps the memo right for what ranks higher. -/
theorem raise (f : Follows ρ g₀ h₀ h' m own g s g' s') (t : Tracks ρ g₀ h₀ h' n g s) (h : m ≤ n) :
    Follows ρ g₀ h₀ h' n own g s g' s' where
  tracks :=
    { f.tracks with
      copies := fun i j v e hj hv => by
        by_cases hlow : ρ j < m
        · exact f.tracks.copies i j v e hlow hv
        · -- this entry was there before
          have hsame : s'.memo.lookup i = s.memo.lookup i := by
            refine f.memo i fun l el => ?_
            obtain rfl := Option.some.inj (e.symm.trans el)
            exact Nat.le_of_not_lt hlow
          exact (t.copies i j v e hj (hsame ▸ hv)).mono f.extends }
  «extends» := f.extends
  size_le := f.size_le
  rows := f.rows
  partners := f.partners
  memo i hi := f.memo i fun j e => Nat.le_trans h (hi j e)

end Follows

/-! ### Objects that are begun, filled and complete -/

section Begin

variable {i j : Nat} {o : Object}

/-- A copy was begun.  It has no partner yet, and the memo is right for what ranks lower. -/
theorem Tracks.begunAt (t : Tracks ρ g₀ h₀ h' n g s) (e : g₀ i = some j) (hj : ρ j ≤ n)
    (hkey : ¬ h₀.IsKey (.object i)) (o : Object) :
    Tracks ρ g₀ h₀ h' (ρ j) g (s.begunAt i o) where
  heap := t.heap.add_left o
  «extends» := t.extends
  size_le := by
    show _ ≤ (s.heap.add o).2.objects.size
    rw [Heap.size_add]
    exact Nat.le_succ_of_le t.size_le
  originals l hl := by
    rw [get?_begunAt, if_neg (Nat.ne_of_lt (Nat.lt_of_lt_of_le hl t.size_le)), t.originals l hl]
  copies l p v el hp hv := by
    have hne : l ≠ i := by
      rintro rfl
      obtain rfl := Option.some.inj (e.symm.trans el)
      exact Nat.lt_irrefl _ hp
    rw [lookup_begunAt, if_neg hne] at hv
    exact t.copies l p v el (Nat.lt_of_lt_of_le hp hj) hv
  keys l hl := by
    have hne : l ≠ i := fun h => hkey (h ▸ hl)
    rw [lookup_begunAt, if_neg hne, t.keys l hl]

/-- The object that is being filled changes. -/
theorem Follows.put (t : Tracks ρ g₀ h₀ h' n g s) (hj : g j = none) (hnew : h₀.objects.size ≤ j)
    (o' : Object) : Follows ρ g₀ h₀ h' n (some j) g s g { s with heap := s.heap.put j o' } where
  tracks :=
    { t with
      heap := t.heap.put_left hj o'
      size_le := by
        show _ ≤ (s.heap.put j o').objects.size
        rw [Heap.size_put]
        exact t.size_le
      originals := fun i hi => by
        have hother : j ≠ i := Nat.ne_of_gt (Nat.lt_of_lt_of_le hi hnew)
        show (s.heap.put j o').get? i = _
        rw [Heap.get?_put, if_neg hother, t.originals i hi] }
  «extends» := .refl g
  size_le := Nat.le_of_eq (Heap.size_put ..).symm
  rows i _ hown := by
    show (s.heap.put j o').get? i = _
    rw [Heap.get?_put, if_neg fun h => hown (congrArg some h)]
  partners _ _ := rfl
  memo _ _ := rfl

/-- A copy was begun and filled, with parts that rank lower: it is complete, and gets its
partner. -/
theorem Follows.complete {q p : Object} (t : Tracks ρ g₀ h₀ h' n g s) (hm : h₀.Mirrors ρ g₀ h')
    (e : g₀ i = some j) (hj : ρ j < n)
    (f : Follows ρ g₀ h₀ h' (ρ j) (some s.heap.objects.size) g (s.begunAt i o) g' s')
    (hq : s'.heap.get? s.heap.objects.size = some q) (hp : h'.get? j = some p)
    (hqp : q.Mirrors (g'.below ρ (ρ j)) p) (hk : ∀ es, q = .dict es → s'.heap.Keyed es) :
    Follows ρ g₀ h₀ h' n none g s (g'.join s.heap.objects.size j) s' := by
  have hsize : (s.begunAt i o).heap.objects.size = s.heap.objects.size + 1 := Heap.size_add ..
  have hown : g' s.heap.objects.size = none := by
    rw [f.partners _ (by rw [hsize]; exact Nat.lt_succ_self _)]
    exact t.heap.eq_none (Nat.le_refl _)
  have hext : g'.Extends (g'.join s.heap.objects.size j) := .join hown
  -- the entry of the original is the one that was made when the copy was begun
  have hentry : s'.memo.lookup i = some (.object s.heap.objects.size) := by
    rw [f.memo i fun l el => Nat.le_of_eq (congrArg ρ (Option.some.inj (e.symm.trans el))),
      lookup_begunAt, if_pos rfl]
  have hothers : ∀ l, l ≠ i → (∀ p, g₀ l = some p → ρ j ≤ ρ p) →
      s'.memo.lookup l = s.memo.lookup l := by
    intro l hne hl
    rw [f.memo l hl, lookup_begunAt, if_neg hne]
  refine ⟨?_, f.extends.trans hext, ?_, fun l hl _ => ?_, fun l hl => ?_, fun l hl => ?_⟩
  · refine { f.tracks with
      heap := f.tracks.heap.join hown hq hp (hm.rank_lt i j e) hqp hk
      «extends» := f.tracks.extends.trans hext
      copies := fun l r v el hr hv => ?_ }
    by_cases hlow : ρ r < ρ j
    · exact (f.tracks.copies l r v el hlow hv).mono hext
    · by_cases hl : l = i
      · subst hl
        obtain rfl := Option.some.inj (e.symm.trans el)
        obtain rfl := Option.some.inj (hentry.symm.trans hv)
        exact .object Pairing.join_self
      · have hsame := hothers l hl fun p ep => by
          obtain rfl := Option.some.inj (el.symm.trans ep)
          exact Nat.le_of_not_lt hlow
        exact (t.copies l r v el hr (hsame ▸ hv)).mono (f.extends.trans hext)
  · have hle := f.size_le
    rw [hsize] at hle
    exact Nat.le_of_succ_le hle
  · have hne : l ≠ s.heap.objects.size := Nat.ne_of_lt hl
    rw [f.rows l (by rw [hsize]; exact Nat.lt_succ_of_lt hl)
      (fun h => hne (Option.some.inj h).symm), get?_begunAt, if_neg hne]
  · rw [Pairing.join_of_ne (Nat.ne_of_lt hl),
      f.partners l (by rw [hsize]; exact Nat.lt_succ_of_lt hl)]
  · refine hothers l (fun h => ?_) fun p ep => Nat.le_trans (Nat.le_of_lt hj) (hl p ep)
    exact Nat.not_le.mpr hj (hl j (h ▸ e))

end Begin

/-! ### The judgment -/

/-- A run succeeds, and does what a part of a copy does. -/
def Grows (ρ : Nat → Nat) (g₀ : Pairing) (h₀ h' : Heap) (n : Nat) (own : Option Nat) (g : Pairing)
    (s : Copying) (act : Run Copying α) (good : Pairing → Copying → α → Prop) : Prop :=
  ∃ a g' s', act.exec s = (.ok a, s') ∧ Follows ρ g₀ h₀ h' n own g s g' s' ∧ good g' s' a

namespace Grows

variable {act : Run Copying α} {good : Pairing → Copying → α → Prop}
  {good' : Pairing → Copying → β → Prop}

theorem pure (t : Tracks ρ g₀ h₀ h' n g s) {a : α} (ha : good g s a) :
    Grows ρ g₀ h₀ h' n own g s (pure a) good := ⟨a, g, s, rfl, .refl t, ha⟩

theorem bind {f : α → Run Copying β} (hact : Grows ρ g₀ h₀ h' n own g s act good)
    (hf : ∀ a g' s', Follows ρ g₀ h₀ h' n own g s g' s' → good g' s' a →
      Grows ρ g₀ h₀ h' n own g' s' (f a) good') :
    Grows ρ g₀ h₀ h' n own g s (act >>= f) good' := by
  obtain ⟨a, g', s', e, hfollows, ha⟩ := hact
  obtain ⟨b, g'', s'', e', hfollows', hb⟩ := hf a g' s' hfollows ha
  exact ⟨b, g'', s'', (Run.exec_bind_ok e).trans e', hfollows.trans hfollows', hb⟩

theorem get_bind {f : Copying → Run Copying β} (hf : Grows ρ g₀ h₀ h' n own g s (f s) good') :
    Grows ρ g₀ h₀ h' n own g s (get >>= f) good' := hf

theorem modify_bind {k : Copying → Copying} {f : PUnit → Run Copying β}
    (hk : Follows ρ g₀ h₀ h' n own g s g (k s))
    (hf : Grows ρ g₀ h₀ h' n own g (k s) (f ⟨⟩) good') :
    Grows ρ g₀ h₀ h' n own g s (modify k >>= f) good' := by
  obtain ⟨b, g', s', e, hfollows, hb⟩ := hf
  exact ⟨b, g', s', e, hk.trans hfollows, hb⟩

/-- A part that fills nothing, while an object is being filled. -/
theorem within (hact : Grows ρ g₀ h₀ h' n none g s act good) (own : Option Nat) :
    Grows ρ g₀ h₀ h' n own g s act
      (fun g' s' a => Follows ρ g₀ h₀ h' n none g s g' s' ∧ good g' s' a) := by
  obtain ⟨a, g', s', e, f, ha⟩ := hact
  exact ⟨a, g', s', e, f.within own, f, ha⟩

end Grows

/-- A function copies a value that mirrors `v'` and ranks below `n`. -/
def CopiesTo (ρ : Nat → Nat) (g₀ : Pairing) (h₀ h' : Heap) (n : Nat)
    (copy : Value → Run Copying Value) (v v' : Value) : Prop :=
  ∀ g s, Tracks ρ g₀ h₀ h' n g s →
    Grows ρ g₀ h₀ h' n none g s (copy v) fun g' _ w => w.Mirrors (g'.below ρ n) v'

/-! ### Parts -/

section Parts

variable {copy : Value → Run Copying Value}
  (hc : ∀ v v', v.Mirrors (g₀.below ρ n) v' → CopiesTo ρ g₀ h₀ h' n copy v v')
include hc

theorem grows_copyAll {xs ys : List Value} (hxs : Value.AllMirror (g₀.below ρ n) xs ys)
    (t : Tracks ρ g₀ h₀ h' n g s) :
    Grows ρ g₀ h₀ h' n none g s (copyAll copy xs)
      fun g' _ ws => Value.AllMirror (g'.below ρ n) ws ys := by
  induction hxs generalizing g s with
  | nil => exact .pure t .nil
  | cons hv _ ih =>
    refine (hc _ _ hv g s t).bind fun w g₁ s₁ f₁ hw => ?_
    refine (ih f₁.tracks).bind fun ws g₂ s₂ f₂ hws => .pure f₂.tracks ?_
    exact .cons (hw.mono f₂.extends.below) hws

/-- Induction on the items that are left; those before are in the copy. -/
theorem grows_fillList {k : Nat} {us us' xs ys : List Value}
    (hxs : Value.AllMirror (g₀.below ρ n) xs ys) (t : Tracks ρ g₀ h₀ h' n g s) (hk : g k = none)
    (hnew : h₀.objects.size ≤ k) (hrow : s.heap.get? k = some (.list us))
    (hus : Value.AllMirror (g.below ρ n) us us') :
    Grows ρ g₀ h₀ h' n (some k) g s (fillList copy k xs) fun g' s' _ =>
      ∃ ws, s'.heap.get? k = some (.list ws) ∧ Value.AllMirror (g'.below ρ n) ws (us' ++ ys) := by
  induction hxs generalizing g s us us' with
  | nil =>
    refine .pure t ⟨us, hrow, ?_⟩
    rw [List.append_nil]
    exact hus
  | @cons v v' xs ys hv _ ih =>
    refine ((hc _ _ hv g s t).within (some k)).bind fun w g₁ s₁ _ hw => ?_
    obtain ⟨f₁, hw⟩ := hw
    have hlt : k < s.heap.objects.size := Heap.lt_size hrow
    have hk₁ : g₁ k = none := (f₁.partners k hlt).trans hk
    have hrow₁ : s₁.heap.get? k = some (.list us) :=
      (f₁.rows k hlt (Option.some_ne_none k).symm).trans hrow
    have hitems : s₁.heap.listItems k = us := by
      rw [Heap.listItems, hrow₁]
    have hput := Follows.put f₁.tracks hk₁ hnew (.list (us ++ [w]))
    have hrow₂ : (s₁.heap.put k (.list (us ++ [w]))).get? k = some (.list (us ++ [w])) := by
      rw [Heap.get?_put, if_pos rfl, hrow₁]
      rfl
    refine .modify_bind ?_ ?_ <;> rw [hitems]
    · exact hput
    · have hall : Value.AllMirror (g₁.below ρ n) (us ++ [w]) (us' ++ [v']) :=
        List.rel_append (hus.mono f₁.extends.below) (.cons hw .nil)
      have h := ih hput.tracks hk₁ hrow₂ hall
      rw [List.append_assoc] at h
      exact h

/-- Induction on the entries that are left; those before are in the copy, with the very keys of the
original. -/
theorem grows_fillDict {i j k : Nat} (hm : h₀.Mirrors ρ g₀ h') (e : g₀ i = some j)
    {before es fs before' : List (Value × Value)}
    (hkeys : ∀ v v', v.Mirrors (g₀.below ρ n) v' → h₀.IsKey v → ∀ g s,
      Tracks ρ g₀ h₀ h' n g s → (copy v).exec s = (.ok v, s))
    (hrow₀ : h₀.get? i = some (.dict (before ++ es)))
    (hes : Value.EntriesMirror (g₀.below ρ n) es fs) (t : Tracks ρ g₀ h₀ h' n g s)
    (hk : g k = none) (hnew : h₀.objects.size ≤ k) {done : List (Value × Value)}
    (hrow : s.heap.get? k = some (.dict done)) (hdone : done.map Prod.fst = before.map Prod.fst)
    (hmirror : Value.EntriesMirror (g.below ρ n) done before') :
    Grows ρ g₀ h₀ h' n (some k) g s (fillDict copy k es) fun g' s' _ =>
      ∃ ws, s'.heap.get? k = some (.dict ws) ∧
        ws.map Prod.fst = (before ++ es).map Prod.fst ∧
        Value.EntriesMirror (g'.below ρ n) ws (before' ++ fs) := by
  induction hes generalizing g s before before' done with
  | nil =>
    refine .pure t ⟨done, hrow, ?_, ?_⟩
    · rw [List.append_nil]
      exact hdone
    · rw [List.append_nil]
      exact hmirror
  | @cons x y es fs hxy _ ih =>
    obtain ⟨hkey, hval⟩ := hxy
    refine ((hc _ _ hval g s t).within (some k)).bind fun w g₁ s₁ _ hw => ?_
    obtain ⟨f₁, hw⟩ := hw
    have hlt : k < s.heap.objects.size := Heap.lt_size hrow
    have hk₁ : g₁ k = none := (f₁.partners k hlt).trans hk
    have hrow₁ : s₁.heap.get? k = some (.dict done) :=
      (f₁.rows k hlt (Option.some_ne_none k).symm).trans hrow
    -- the key copies to itself, and is none of those before
    have hkeyed₀ := hm.keyed i j _ e hrow₀
    have hexec : (copy x.1).exec s₁ = (.ok x.1, s₁) :=
      hkeys _ _ hkey (hkeyed₀.keys x (List.mem_append_right _ (.head _))) g₁ s₁ f₁.tracks
    have hkeyed : s₁.heap.Keyed (before ++ x :: es) :=
      f₁.tracks.heap.keyed i j _ (f₁.tracks.extends i j e)
        ((f₁.tracks.originals i (hm.lt e)).trans hrow₀)
    have hapart : ∀ a ∈ done, s₁.heap.Apart a.1 x.1 := by
      intro a ha
      have hmem : a.1 ∈ before.map Prod.fst := hdone ▸ List.mem_map_of_mem ha
      obtain ⟨b, hb, hab⟩ := List.mem_map.mp hmem
      exact hab ▸ (List.pairwise_append.mp hkeyed.apart).2.2 b hb x (.head _)
    have hentries : s₁.heap.setKey x.1 w (dictEntries s₁.heap k) = done ++ [(x.1, w)] := by
      rw [dictEntries, hrow₁]
      exact Heap.setKey_eq_append hapart
    have hput := Follows.put f₁.tracks hk₁ hnew (.dict (done ++ [(x.1, w)]))
    have hrow₂ : (s₁.heap.put k (.dict (done ++ [(x.1, w)]))).get? k
        = some (.dict (done ++ [(x.1, w)])) := by
      rw [Heap.get?_put, if_pos rfl, hrow₁]
      rfl
    have hsame : Grows ρ g₀ h₀ h' n (some k) g₁ s₁ (copy x.1)
        fun g' s' l => l = x.1 ∧ g' = g₁ ∧ s' = s₁ :=
      ⟨x.1, g₁, s₁, hexec, .refl f₁.tracks, rfl, rfl, rfl⟩
    refine hsame.bind fun l g₂ s₂ _ h₂ => ?_
    obtain ⟨rfl, rfl, rfl⟩ := h₂
    refine .modify_bind ?_ ?_ <;> rw [hentries]
    · exact hput
    · rw [List.append_cons before x es] at hrow₀
      have hmap : (done ++ [(x.1, w)]).map Prod.fst = (before ++ [x]).map Prod.fst := by
        rw [List.map_append, List.map_append, hdone]
        rfl
      have hkey' : x.1.Mirrors (g₂.below ρ n) y.1 := hkey.mono f₁.tracks.extends.below
      have hall : Value.EntriesMirror (g₂.below ρ n) (done ++ [(x.1, w)]) (before' ++ [y]) :=
        List.rel_append (hmirror.mono f₁.extends.below) (.cons ⟨hkey', hw⟩ .nil)
      have h := ih hrow₀ hput.tracks hk₁ hrow₂ hmap hall
      rw [List.append_cons before x es, List.append_cons before' y fs]
      exact h

/-- The list of a loop is copied to a list. -/
theorem grows_fillLoop {j k : Nat} {l : LoopState} (e : (g₀.below ρ n) l.items = some j)
    (t : Tracks ρ g₀ h₀ h' n g s) (hk : g k = none) (hnew : h₀.objects.size ≤ k)
    (hrow : s.heap.get? k = some (.loop none)) :
    Grows ρ g₀ h₀ h' n (some k) g s (fillLoop copy l k) fun g' s' _ =>
      ∃ i, s'.heap.get? k = some (.loop (some ⟨i, l.position⟩)) ∧
        (g'.below ρ n) i = some j := by
  refine ((hc _ _ (.object e) g s t).within (some k)).bind fun w g₁ s₁ _ hw => ?_
  obtain ⟨f₁, hw⟩ := hw
  have hlt : k < s.heap.objects.size := Heap.lt_size hrow
  have hrow₁ : s₁.heap.get? k = some (.loop none) :=
    (f₁.rows k hlt (Option.some_ne_none k).symm).trans hrow
  cases hw with
  | @object p _ ep =>
    have hput := Follows.put f₁.tracks ((f₁.partners k hlt).trans hk) hnew
      (.loop (some { l with items := p }))
    refine ⟨⟨⟩, g₁, _, rfl, hput, p, ?_, ep⟩
    show (s₁.heap.put k _).get? k = _
    rw [Heap.get?_put, if_pos rfl, hrow₁]
    rfl

end Parts

/-! ### Keys -/

/-- Values that copy to themselves one by one copy to themselves all. -/
theorem exec_copyAll_self {copy : Value → Run Copying Value} {xs : List Value}
    (h : ∀ v ∈ xs, (copy v).exec s = (.ok v, s)) : (copyAll copy xs).exec s = (.ok xs, s) := by
  induction xs with
  | nil => rfl
  | cons v rest ih =>
    rw [copyAll, Run.exec_bind_ok (h v (.head _)),
      Run.exec_bind_ok (ih fun x hx => h x (.tail _ hx))]
    rfl

/-- A key copies to itself: induction on the tuples in it, whose rank bounds their depth. -/
theorem exec_deepCopyIn_key (hm : h₀.Mirrors ρ g₀ h') {v v' : Value} (k : h₀.IsKey v)
    (hv : v.Mirrors (g₀.below ρ m) v') {depth : Nat} (hd : m ≤ depth)
    (t : Tracks ρ g₀ h₀ h' n g s) : (deepCopyIn depth v).exec s = (.ok v, s) := by
  induction k generalizing v' m depth with
  | atom a => cases depth <;> rfl
  | @tuple i xs e hxs ih =>
    have hkey : h₀.IsKey (.object i) := .tuple e hxs
    cases hv with
    | @object _ j ej =>
      obtain ⟨ej, hj⟩ := Pairing.below_eq_some.mp ej
      obtain ⟨d, rfl⟩ : ∃ d, depth = d + 1 := ⟨depth - 1, by omega⟩
      obtain ⟨o, o', ho, ho', hoo⟩ := hm.row i j ej
      obtain rfl := Option.some.inj (e.symm.trans ho)
      have hrow : s.heap.get? i = some (.tuple xs) := (t.originals i (hm.lt ej)).trans e
      cases hoo with
      | tuple hys =>
        have hall : (copyAll (deepCopyIn d) xs).exec s = (.ok xs, s) := by
          refine exec_copyAll_self fun x hx => ?_
          -- the item has a partner that ranks lower
          obtain ⟨y, hxy⟩ := hys.exists_of_mem hx
          exact ih x hx hxy (by omega)
        rw [deepCopyIn, Run.exec_get_bind, t.keys i hkey]
        dsimp only
        rw [hrow, copyObject, Run.exec_bind_ok hall, Run.exec_get_bind, t.keys i hkey]
        dsimp only
        rw [if_pos rfl]
        rfl

/-! ### Objects -/

theorem mirrors_below {w : Value} {j : Nat} (hw : w.Mirrors g (.object j)) (hj : ρ j < n) :
    w.Mirrors (g.below ρ n) (.object j) := by
  cases hw with
  | object e => exact .object (Pairing.below_eq_some.mpr ⟨e, hj⟩)

/-- The copy of an object that is begun first and filled then. -/
theorem grows_begin (hm : h₀.Mirrors ρ g₀ h') {i j : Nat} {o p : Object}
    {fill : Nat → Run Copying Unit} (t : Tracks ρ g₀ h₀ h' n g s) (e : g₀ i = some j)
    (hj : ρ j < n) (hkey : ¬ h₀.IsKey (.object i)) (hp : h'.get? j = some p)
    (hfill : ∀ s₁ k, Tracks ρ g₀ h₀ h' (ρ j) g s₁ → g k = none → h₀.objects.size ≤ k →
      s₁.heap.get? k = some o →
      Grows ρ g₀ h₀ h' (ρ j) (some k) g s₁ (fill k) fun g' s' _ =>
        ∃ q, s'.heap.get? k = some q ∧ q.Mirrors (g'.below ρ (ρ j)) p ∧
          ∀ es, q = .dict es → s'.heap.Keyed es) :
    Grows ρ g₀ h₀ h' n none g s
      (do
        let k ← begin i o
        fill k
        return Value.object k)
      fun g' _ w => Value.Mirrors (g'.below ρ n) w (.object j) := by
  have hrow : (s.begunAt i o).heap.get? s.heap.objects.size = some o := by
    rw [get?_begunAt, if_pos rfl]
  obtain ⟨⟨⟩, g', s', e', f, q, hq, hqp, hk⟩ := hfill _ _
    (t.begunAt e (Nat.le_of_lt hj) hkey o) (t.heap.eq_none (Nat.le_refl _)) t.size_le hrow
  have hcomplete := Follows.complete t hm e hj f hq hp hqp hk
  refine ⟨.object s.heap.objects.size, _, s', ?_, hcomplete, ?_⟩
  · rw [Run.exec_bind_ok (exec_begin i o s), Run.exec_bind_ok e']
    rfl
  · exact mirrors_below (.object Pairing.join_self) hj

/-- What copies the parts of an object copies the object. -/
theorem copiesTo_object (hm : h₀.Mirrors ρ g₀ h') {i j depth : Nat}
    (hc : ∀ v v', v.Mirrors (g₀.below ρ (ρ j)) v' →
      CopiesTo ρ g₀ h₀ h' (ρ j) (deepCopyIn depth) v v')
    (hd : ρ j ≤ depth) (e : g₀ i = some j) (hj : ρ j < n) :
    CopiesTo ρ g₀ h₀ h' n (deepCopyIn (depth + 1)) (.object i) (.object j) := by
  intro g s t
  by_cases hkey : h₀.IsKey (.object i)
  · have hv : Value.Mirrors (g₀.below ρ (ρ j + 1)) (.object i) (.object j) :=
      mirrors_below (.object e) (Nat.lt_succ_self _)
    exact ⟨_, g, s, exec_deepCopyIn_key hm hkey hv (Nat.succ_le_succ hd) t, .refl t,
      mirrors_below (.object (t.extends i j e)) hj⟩
  · obtain ⟨o, o', ho, ho', hoo⟩ := hm.row i j e
    have hrow : s.heap.get? i = some o := (t.originals i (hm.lt e)).trans ho
    rw [deepCopyIn]
    refine .get_bind ?_
    rcases hi : s.memo.lookup i with - | v
    · dsimp only
      rw [hrow]
      cases hoo with
      | list hxs =>
        refine grows_begin hm t e hj hkey ho' fun s₁ k t₁ hk hnew hrow₁ => ?_
        obtain ⟨_, g', s', e', f, ws, hws, hall⟩ :=
          grows_fillList hc hxs t₁ hk hnew hrow₁ (.nil : Value.AllMirror _ [] [])
        exact ⟨_, g', s', e', f, _, hws, .list hall, by rintro _ ⟨⟩⟩
      | @dict es fs hes =>
        refine grows_begin hm t e hj hkey ho' fun s₁ k t₁ hk hnew hrow₁ => ?_
        have hself : ∀ v v', v.Mirrors (g₀.below ρ (ρ j)) v' → h₀.IsKey v → ∀ g s,
            Tracks ρ g₀ h₀ h' (ρ j) g s → (deepCopyIn depth v).exec s = (.ok v, s) :=
          fun v v' hv kv g s t => exec_deepCopyIn_key hm kv hv hd t
        have hall₀ : h₀.get? i = some (.dict ([] ++ es)) := ho
        obtain ⟨_, g', s', e', f, ws, hws, hfst, hall⟩ := grows_fillDict hc hm e hself hall₀ hes
          t₁ hk hnew hrow₁ rfl (.nil : Value.EntriesMirror _ [] [])
        refine ⟨_, g', s', e', f, _, hws, .dict hall, fun es hes => ?_⟩
        obtain rfl := Object.dict.inj hes
        have hkeyed := f.tracks.heap.keyed i j _ (f.tracks.extends i j e)
          ((f.tracks.originals i (hm.lt e)).trans ho)
        exact hkeyed.congr hfst.symm
      | @loop a b ei p =>
        have ei' : (g₀.below ρ (ρ j)) (LoopState.mk a p).items = some b := ei
        rw [copyObject_loop]
        refine grows_begin hm t e hj hkey ho' fun s₁ k t₁ hk hnew hrow₁ => ?_
        obtain ⟨_, g', s', e', f, l, hl, el⟩ := grows_fillLoop hc ei' t₁ hk hnew hrow₁
        exact ⟨_, g', s', e', f, _, hl, .loop el p, by rintro _ ⟨⟩⟩
      | @tuple xs xs' hxs =>
        -- a tuple is begun when its items are copied
        obtain ⟨ys, g₁, s₁, e₁, f₁, hys⟩ := grows_copyAll hc hxs (t.mono (Nat.le_of_lt hj))
        have hsame : s₁.memo.lookup i = none := by
          rw [f₁.memo i fun l el => Nat.le_of_eq (congrArg ρ (Option.some.inj (e.symm.trans el))),
            hi]
        have hraised := f₁.raise t (Nat.le_of_lt hj)
        have hall : Grows ρ g₀ h₀ h' n none g s (copyAll (deepCopyIn depth) xs)
            fun g' s' zs => zs = ys ∧ g' = g₁ ∧ s' = s₁ := ⟨ys, g₁, s₁, e₁, hraised, rfl, rfl, rfl⟩
        refine hall.bind fun zs g₂ s₂ _ h₂ => ?_
        obtain ⟨rfl, rfl, rfl⟩ := h₂
        refine .get_bind ?_
        rw [hsame]
        dsimp only
        split
        · exact .pure hraised.tracks (mirrors_below (.object (hraised.tracks.extends i j e)) hj)
        · have hbegun := hraised.tracks.begunAt e (Nat.le_of_lt hj) hkey (.tuple zs)
          have hcomplete := Follows.complete hraised.tracks hm e hj (.refl hbegun)
            (by rw [get?_begunAt, if_pos rfl]) ho' (.tuple hys) (by rintro _ ⟨⟩)
          exact ⟨_, _, _, rfl, hcomplete, mirrors_below (.object Pairing.join_self) hj⟩
    · have hv := t.copies i j v e hj hi
      exact .pure t (mirrors_below hv hj)

/-- Induction on the depth: an object takes one step, and a method one more; each part of an object
ranks lower. -/
theorem copiesTo_deepCopyIn (hm : h₀.Mirrors ρ g₀ h') (depth : Nat) {n : Nat} {v v' : Value}
    (hv : v.Mirrors (g₀.below ρ n) v') (hd : 2 * n + 1 ≤ depth) :
    CopiesTo ρ g₀ h₀ h' n (deepCopyIn depth) v v' := by
  induction depth using Nat.strongRecOn generalizing n v v' with
  | ind depth ih =>
    have hobject : ∀ {i j d}, d < depth → (g₀.below ρ n) i = some j → 2 * n ≤ d + 1 →
        CopiesTo ρ g₀ h₀ h' n (deepCopyIn (d + 1)) (.object i) (.object j) := by
      intro i j d hlt e hd
      obtain ⟨e, hj⟩ := Pairing.below_eq_some.mp e
      exact copiesTo_object hm (fun v v' hv => ih d hlt hv (by omega)) (by omega) e hj
    cases hv with
    | atom a =>
      intro g s t
      rw [deepCopyIn]
      exact .pure t (.atom a)
    | object e =>
      obtain ⟨d, rfl⟩ : ∃ d, depth = d + 1 := ⟨depth - 1, by omega⟩
      exact hobject (Nat.lt_succ_self d) e (by omega)
    | @method v v' hv hown name =>
      obtain ⟨d, rfl⟩ : ∃ d, depth = d + 1 := ⟨depth - 1, by omega⟩
      intro g s t
      rw [deepCopyIn]
      split
      · have hcopy : CopiesTo ρ g₀ h₀ h' n (deepCopyIn d) v v' := by
          cases hv with
          | atom a =>
            intro g s t
            rw [deepCopyIn]
            exact .pure t (.atom a)
          | object e =>
            obtain ⟨c, rfl⟩ : ∃ c, d = c + 1 := ⟨d - 1, by
              have := (Pairing.below_eq_some.mp e).2
              omega⟩
            exact hobject (by omega) e (by omega)
          | method _ _ _ => cases hown
        refine (hcopy g s t).bind fun w g₁ s₁ f₁ hw => .pure f₁.tracks ?_
        refine .method hw ?_ name
        cases hw with
        | atom _ | object _ => rfl
        | method _ _ _ =>
          cases hv
          cases hown
      · exact .pure t (.method (hv.mono t.extends.below) hown name)

/-- The copy of a value mirrors what the value does. -/
theorem copiesTo_deepCopy (hm : h₀.Mirrors ρ g₀ h') {v v' : Value} (hv : v.Mirrors g₀ v') :
    CopiesTo ρ g₀ h₀ h' h'.objects.size deepCopy v v' := by
  intro g s t
  have hsize := t.heap.size_le
  have hdeep : 2 * h'.objects.size + 1 ≤ s.heap.deepest := by
    rw [Heap.deepest, Nat.add_mul, Nat.mul_add, Nat.mul_add]
    omega
  rw [deepCopy]
  have hlow := hv.mono (hm.extends_below (Nat.le_refl _))
  exact .get_bind (copiesTo_deepCopyIn hm _ hlow hdeep g s t)

end Copying

end Stencil
