/-
Stencil/Proofs/Render/Tame.lean

What a tag can do that gets at contexts by handles only.  It can be any tag: it
may keep handles, and use handles that were kept before, on any cells.  Still it
leaves slots alone; whatever it does to a context is to bind names in the
innermost frame; and it does nothing to a loan under way, whose handle no tag
is given: the cell keeps its context, its lock is free, and its count is exact
(`AtWork.effect`).

`Tame` puts this together for a part of a call.  A touch of one handle is tame,
and by induction on the errand so is every call (`Errand.run_tame`).
-/
import Stencil.Proofs.Render.Errand
import Stencil.Proofs.Render.Handover

namespace Stencil

variable {l l' : Loans Value} {w w' w'' : World}

/-! ### A loan under way -/

namespace AtWork

variable {own k c h : Nat}

/-- Writes to any context. -/
theorem changeAny (a : AtWork own k c [] l) (d : Nat) (f : Context Value → Context Value) :
    AtWork own k c [] (Loans.changeContext d f l) where
  own_row := a.own_row
  cell_row := a.cell_row
  counted := a.counted
  context_lt := by
    rw [Loans.changeContext, Table.size_modify]
    exact a.context_lt
  mine_row _ hmem := nomatch hmem

/-- A further handle on any cell. -/
theorem withAnyHandle (a : AtWork own k c [] l) (j : Nat) : AtWork own k c [] (l.withHandle j) := by
  by_cases hj : j = k
  · subst hj
    exact a.withHandle.mono fun x hx => nomatch hx
  · obtain ⟨n, e⟩ := a.cell_row
    have hcell : (l.withHandle j).cells.get? k = some ⟨some c, n, false, false⟩ :=
      (Table.get?_modify_of_ne _ _ hj).trans e
    refine ⟨?_, ⟨n, hcell⟩, ?_, a.context_lt, fun x hx => nomatch hx⟩
    · exact (Table.get?_add_of_lt _ (Table.lt_size a.own_row)).trans a.own_row
    · have hcounted := a.counted
      rw [Loans.Counted, Loans.cellAt_eq e] at hcounted
      rw [Loans.Counted, Loans.cellAt_eq hcell, Loans.live_withHandle_of_ne hj, hcounted]

/-- A handle that is not that of the render changes hands. -/
theorem anyHolders (a : AtWork own k c [] l) (hne : h ≠ own) (f : Nat → Nat) :
    AtWork own k c [] (Loans.changeHandle h (fun r => { r with holders := f r.holders }) l) where
  own_row := (Table.get?_modify_of_ne _ _ hne).trans a.own_row
  cell_row := a.cell_row
  counted := by
    rw [Loans.Counted, Loans.live_holders]
    exact a.counted
  context_lt := a.context_lt
  mine_row _ hmem := nomatch hmem

/-- It is released, on whatever cell it is. -/
theorem withAnyRelease (a : AtWork own k c [] l) (hne : h ≠ own) :
    AtWork own k c [] (l.withRelease h) := by
  rcases e : l.handles.get? h with - | r
  · rw [Loans.withRelease_of_none e]
    exact a
  · by_cases hk : r.cell = k
    · -- a handle on the same cell is as one of the tag's
      have a' : AtWork own k c [h] l := { a with
        mine_row := fun x hx => by
          obtain rfl := List.mem_singleton.mp hx
          exact ⟨hne, r, e, hk⟩ }
      exact (a'.withRelease (List.mem_singleton_self h)).mono fun x hx => nomatch hx
    · obtain ⟨n, ek⟩ := a.cell_row
      have hcell : (l.withRelease h).cells.get? k = some ⟨some c, n, false, false⟩ := by
        rw [Loans.cells_withRelease e]
        split
        · exact ek
        · exact (Table.get?_modify_of_ne _ _ hk).trans ek
      refine ⟨?_, ⟨n, hcell⟩, a.counted.withRelease ek, ?_, fun x hx => nomatch hx⟩
      · rw [Loans.handles_withRelease, if_neg hne]
        exact a.own_row
      · rw [Loans.contexts_withRelease]
        exact a.context_lt

theorem withAnyLetGo (a : AtWork own k c [] l) (hne : h ≠ own) :
    AtWork own k c [] (l.withLetGo h) := by
  have h₁ := a.anyHolders hne (· - 1)
  rw [Loans.withLetGo]
  split
  · exact h₁.withAnyRelease hne
  · exact h₁

/-- Whatever is done with another handle, the loan goes on. -/
theorem effect {t : Touch} (a : AtWork own k c [] l) (hne : h ≠ own) (e : t.Effect h l l') :
    AtWork own k c [] l' := by
  cases e with
  | rests => exact a
  | writes => exact a.changeAny _ _
  | joins => exact a.withAnyHandle _
  | releases => exact a.withAnyRelease hne
  | holders f => exact a.anyHolders hne f
  | letsGo => exact a.withAnyLetGo hne

end AtWork

/-! ### The effects of a touch -/

namespace Touch.Effect

variable {t : Touch} {h : Nat}

theorem sound (e : t.Effect h l l') (s : l.Sound) : l'.Sound := by
  cases e with
  | rests => exact s
  | writes => exact s.changeContext _ _
  | joins e => exact s.withHandle (s.handle_lt h _ e)
  | releases => exact s.withRelease h
  | holders f => exact s.changeHandle h fun _ => rfl
  | letsGo => exact s.withLetGo h

theorem slots (e : t.Effect h l l') : l'.slots = l.slots := by
  cases e with
  | releases => exact Loans.slots_withRelease l h
  | letsGo => exact Loans.slots_withLetGo l h
  | rests | writes | joins | holders => rfl

theorem handles_size (e : t.Effect h l l') : l.handles.size ≤ l'.handles.size := by
  have hrelease : ∀ m : Loans Value, m.handles.size ≤ (m.withRelease h).handles.size := by
    intro m
    rw [Loans.withRelease]
    split
    · exact Nat.le_refl _
    · show _ ≤ (m.handles.modify h _).size
      rw [Table.size_modify]
  have hholders : ∀ f : Nat → Nat, l.handles.size ≤
      (Loans.changeHandle h (fun r => { r with holders := f r.holders }) l).handles.size := by
    intro f
    rw [Loans.changeHandle, Table.size_modify]
  cases e with
  | rests | writes => exact Nat.le_refl _
  | joins =>
    show _ ≤ (l.handles.add _).size
    rw [Table.size_add]
    exact Nat.le_succ _
  | releases => exact hrelease l
  | holders f => exact hholders f
  | letsGo =>
    rw [Loans.withLetGo]
    split
    · exact Nat.le_trans (hholders (· - 1)) (hrelease _)
    · exact hholders (· - 1)

/-- Contexts are written to only. -/
theorem contexts (e : t.Effect h l l') {c : Nat} {x : Context Value}
    (ex : l.contexts.get? c = some x) :
    l'.contexts.get? c = some (x.writeAll (t.writes l h c)) := by
  have hsame : t.writes l h c = [] → l.contexts.get? c = some (x.writeAll (t.writes l h c)) := by
    intro hw
    rw [hw, ex, Context.writeAll_nil]
  cases e with
  | rests hw => exact hsame (hw c)
  | @writes d holds =>
    by_cases hd : d = c
    · subst hd
      exact Table.get?_modify_self _ ex
    · have hw : t.writes l h c = [] :=
        writes_of_ne fun e => hd (Option.some.inj (holds.symm.trans e))
      rw [hw, Context.writeAll_nil]
      exact (Table.get?_modify_of_ne _ _ hd).trans ex
  | joins _ hw => exact hsame (hw c)
  | releases hw =>
    rw [Loans.contexts_withRelease]
    exact hsame (hw c)
  | holders f hw => exact hsame (hw c)
  | letsGo hw =>
    rw [Loans.contexts_withLetGo]
    exact hsame (hw c)

end Touch.Effect

/-! ### Tame calls -/

/-- Handles within reach: those that are given, and those with numbers from `n` on that are there. -/
def Within (given : List Nat) (n : Nat) (hs : List Nat) (l : Loans Value) : Prop :=
  ∀ h ∈ hs, h ∈ given ∨ n ≤ h ∧ h < l.handles.size

namespace Within

variable {given mine kept : List Nat} {n : Nat}

theorem mono (h : Within given n mine l) (hle : l.handles.size ≤ l'.handles.size) :
    Within given n mine l' := by
  intro i hi
  rcases h i hi with hmem | ⟨hge, hlt⟩
  · exact .inl hmem
  · exact .inr ⟨hge, Nat.lt_of_lt_of_le hlt hle⟩

theorem append (h : Within given n mine l) (h' : Within given n kept l) :
    Within given n (mine ++ kept) l := by
  intro i hi
  rcases List.mem_append.mp hi with hi | hi
  · exact h i hi
  · exact h' i hi

theorem left (h : Within given n (mine ++ kept) l) : Within given n mine l :=
  fun i hi => h i (List.mem_append_left _ hi)

theorem right (h : Within given n (mine ++ kept) l) : Within given n kept l :=
  fun i hi => h i (List.mem_append_right _ hi)

end Within

/-- What a part of a call does that can get at the handles `given`, and at those with numbers from
`n` on, and that writes `ws c` to the context `c`. -/
structure Tame (given : List Nat) (n : Nat) (ws : Nat → List Write) (w w' : World) : Prop where
  sound : w'.loans.Sound
  slots : ∀ s q, w.loans.slots.get? s = some q → w'.loans.slots.get? s = some q
  handles : w.loans.handles.size ≤ w'.loans.handles.size
  contexts : ∀ c x, w.loans.contexts.get? c = some x →
    w'.loans.contexts.get? c = some (x.writeAll (ws c))
  /-- A loan goes on whose handle it cannot get at. -/
  lends : ∀ own k c, own ∉ given → own < n → AtWork own k c [] w.loans →
    AtWork own k c [] w'.loans
  kept : Within given n w'.kept w'.loans

namespace Tame

variable {given : List Nat} {n : Nat} {ws vs : Nat → List Write}

theorem trans (h₁ : Tame given n ws w w') (h₂ : Tame given n vs w' w'') :
    Tame given n (fun c => ws c ++ vs c) w w'' where
  sound := h₂.sound
  slots s q e := h₂.slots s q (h₁.slots s q e)
  handles := Nat.le_trans h₁.handles h₂.handles
  contexts c x e := by
    rw [h₂.contexts c _ (h₁.contexts c x e), Context.writeAll_append]
  lends own k c hgiven hlt a := h₂.lends own k c hgiven hlt (h₁.lends own k c hgiven hlt a)
  kept := h₂.kept

/-- Nothing is done to what is on loan. -/
theorem of_loans (s : w.loans.Sound) (hl : w'.loans = w.loans) (hk : w'.kept = w.kept)
    (kept : Within given n w.kept w.loans) : Tame given n (fun _ => []) w w' where
  sound := hl ▸ s
  slots _ _ e := hl ▸ e
  handles := by rw [hl]
  contexts _ _ e := hl ▸ e
  lends _ _ _ _ _ a := hl ▸ a
  kept := by
    rw [hk, hl]
    exact kept

/-- A handle is touched that is within reach. -/
theorem touch {t : Touch} {h : Nat} (s : w.loans.Sound) (e : t.Effect h w.loans l')
    (reach : h ∈ given ∨ n ≤ h) (kept : Within given n w.kept w.loans) :
    Tame given n (t.writes w.loans h) w { w with loans := l' } where
  sound := e.sound s
  slots i q ei := by
    show l'.slots.get? i = some q
    rw [e.slots]
    exact ei
  handles := e.handles_size
  contexts _ _ ex := e.contexts ex
  lends own k c hgiven hlt a := by
    refine a.effect ?_ e
    rintro rfl
    rcases reach with hmem | hge
    · exact hgiven hmem
    · exact Nat.lt_irrefl _ (Nat.lt_of_lt_of_le hlt hge)
  kept := kept.mono e.handles_size

/-- Keeping a handle that is within reach. -/
theorem keep {mine : List Nat} {g : Grip} (s : w.loans.Sound)
    (reach : Within given n (mine ++ w.kept) w.loans) :
    Tame given n (fun _ => []) w (w.keep (g.handle? mine w.kept)) := by
  rcases e : g.handle? mine w.kept with - | h
  · exact .of_loans s rfl rfl reach.right
  · have hreach := reach h (Grip.mem_of_handle? e)
    have hwrites : Touch.hold.writes w.loans h = fun _ => [] := rfl
    have h₁ := touch (t := .hold) s (.holders (· + 1) fun _ => rfl)
      (hreach.imp_right And.left) reach.right
    rw [hwrites] at h₁
    refine ⟨h₁.sound, h₁.slots, h₁.handles, h₁.contexts, h₁.lends, h₁.kept.append fun i hi => ?_⟩
    obtain rfl := List.mem_singleton.mp hi
    exact hreach.imp_right fun ⟨hge, hlt⟩ => ⟨hge, Nat.lt_of_lt_of_le hlt h₁.handles⟩

end Tame

/-! ### Errands are tame -/

/-- Induction on the errand.  A handle that it makes on the way is within reach from then on. -/
theorem Errand.run_tame {given : List Nat} {n : Nat} (e : Errand) {mine : List Nat}
    (s : w.loans.Sound) (hn : n ≤ w.loans.handles.size)
    (reach : Within given n (mine ++ w.kept) w.loans) :
    Tame given n (fun c => e.writes c mine w) w ((e.run mine).exec w).2 := by
  induction e generalizing mine w with
  | finish r => exact .of_loans s rfl rfl reach.right
  | touch g t next ih =>
    rcases eg : g.handle? mine w.kept with - | h
    · rw [exec_touch_none eg]
      simp only [writes, eg]
      exact ih _ s hn reach
    · have heffect := t.effect s h
      have hh := (reach h (Grip.mem_of_handle? eg)).imp_right And.left
      have ea := exec_attempt_onLoans (t.act h) w
      rw [exec_touch eg]
      simp only [writes, eg]
      rcases et : (t.act h).exec w.loans with ⟨(f | -) | ⟨a, made⟩, l'⟩ <;> rw [et] at heffect ea <;>
        have h₁ := Tame.touch s heffect hh reach.right
      · simp only [Conduct.afterwards_ok ea]
        have hmine := reach.left.mono h₁.handles
        exact h₁.trans (ih _ h₁.sound (hn.trans h₁.handles) (hmine.append h₁.kept))
      · simp only [Conduct.afterwards_error ea, List.append_nil]
        exact h₁
      · simp only [Conduct.afterwards_ok ea]
        have hmade : Within given n made l' := fun i hi => by
          obtain ⟨hge, hlt, -⟩ := (Touch.made et).2 i hi
          exact .inr ⟨hn.trans hge, hlt⟩
        have hmine := (reach.left.mono h₁.handles).append hmade
        exact h₁.trans (ih _ h₁.sound (hn.trans h₁.handles) (hmine.append h₁.kept))
  | keep g next ih =>
    have h₁ := Tame.keep (g := g) s reach
    have hmine := reach.left.mono h₁.handles
    rw [run, Run.exec_modify_bind]
    exact h₁.trans (ih h₁.sound (hn.trans h₁.handles) (hmine.append h₁.kept))
  | look next ih =>
    rw [run, Run.exec_get_bind]
    exact ih _ s hn reach
  | work act next ih =>
    have h₁ : ∀ v : World, Tame given n (fun _ => []) w { v with loans := w.loans, kept := w.kept } :=
      fun v => .of_loans s rfl rfl reach.right
    have ea := exec_attempt_aside act w
    rw [exec_work]
    simp only [writes]
    rcases e : act.exec w.bare with ⟨(f | -) | a, v⟩ <;> rw [e] at ea
    · simp only [Conduct.afterwards_ok ea]
      exact (h₁ v).trans (ih _ s hn reach)
    · simp only [Conduct.afterwards_error ea]
      exact h₁ v
    · simp only [Conduct.afterwards_ok ea]
      exact (h₁ v).trans (ih _ s hn reach)

end Stencil
