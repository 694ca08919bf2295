/-
Stencil/Proofs/Render/Steady.lean

Loans while a context is on loan.  Until it is got back no context is put into a
cell, handles stay on their cells, and no lock stays taken (`Steady`).  A tag
reaches handles on the cell of the loan, and kept handles on older cells; in no
older cell is the context that is on loan (`InReach`).  What is done to handles
and cells does not depend on contexts (`Touch.exec_act_withContexts`).
-/
import Stencil.Proofs.Render.Alike

namespace Stencil

variable {k c : Nat} {l m n : Loans Value}

/-! ### Steady loans -/

/-- What may become of loans while no context is put into a cell: handles stay on their cells, and
no lock stays taken. -/
structure Steady (l m : Loans Value) : Prop where
  handles : l.handles.size ≤ m.handles.size
  cell : ∀ h, h < l.handles.size → (m.handleAt h).cell = (l.handleAt h).cell
  context : ∀ k c, (m.cellAt k).context = some c → (l.cellAt k).context = some c
  free : ∀ k, (l.cellAt k).locked = false → (m.cellAt k).locked = false

namespace Steady

theorem refl (l : Loans Value) : Steady l l :=
  ⟨Nat.le_refl _, fun _ _ => rfl, fun _ _ e => e, fun _ e => e⟩

theorem trans (h₁ : Steady l m) (h₂ : Steady m n) : Steady l n where
  handles := Nat.le_trans h₁.handles h₂.handles
  cell h hlt := (h₂.cell h (Nat.lt_of_lt_of_le hlt h₁.handles)).trans (h₁.cell h hlt)
  context k c e := h₁.context k c (h₂.context k c e)
  free k e := h₂.free k (h₁.free k e)

/-- Slots and contexts do not matter. -/
theorem of_tables (hh : m.handles = l.handles) (hc : m.cells = l.cells) : Steady l m := by
  obtain ⟨_, _, _, _⟩ := m
  obtain rfl := hh
  obtain rfl := hc
  exact ⟨Nat.le_refl _, fun _ _ => rfl, fun _ _ e => e, fun _ e => e⟩

theorem addHandle (l : Loans Value) (r : Handle) :
    Steady l { l with handles := l.handles.add r } where
  handles := by
    rw [Table.size_add]
    exact Nat.le_succ _
  cell h hlt := by
    rw [Loans.handleAt, Loans.handleAt, Table.get?_add_of_lt r hlt]
  context _ _ e := e
  free _ e := e

theorem changeHandle (l : Loans Value) (h : Nat) {f : Handle → Handle}
    (hf : ∀ r, (f r).cell = r.cell) : Steady l (Loans.changeHandle h f l) where
  handles := by rw [Loans.changeHandle, Table.size_modify]
  cell i hlt := by
    obtain ⟨r, e⟩ := Table.exists_get? hlt
    rw [Loans.handleAt_eq e, Loans.handleAt, Loans.changeHandle, Table.get?_modify, e]
    split
    · exact hf r
    · rfl
  context _ _ e := e
  free _ e := e

theorem changeCell (l : Loans Value) (k : Nat) {f : Cell → Cell}
    (hf : ∀ q c, (f q).context = some c → q.context = some c)
    (hl : ∀ q, q.locked = false → (f q).locked = false) : Steady l (Loans.changeCell k f l) := by
  have hcell : ∀ j, (Loans.changeCell k f l).cellAt j = l.cellAt j ∨
      (Loans.changeCell k f l).cellAt j = f (l.cellAt j) := by
    intro j
    rw [Loans.cellAt, Loans.cellAt, Loans.changeCell, Table.get?_modify]
    rcases l.cells.get? j with - | q
    · left
      split <;> rfl
    · split
      · exact .inr rfl
      · exact .inl rfl
  refine ⟨Nat.le_refl _, fun _ _ => rfl, fun j c e => ?_, fun j e => ?_⟩
  · rcases hcell j with h | h <;> rw [h] at e
    · exact e
    · exact hf _ c e
  · rcases hcell j with h | h <;> rw [h]
    · exact e
    · exact hl _ e

theorem withHandle (l : Loans Value) (k : Nat) : Steady l (l.withHandle k) :=
  (addHandle l _).trans (changeCell _ k (fun _ _ e => e) fun _ e => e)

theorem withRelease (l : Loans Value) (h : Nat) : Steady l (l.withRelease h) := by
  rw [Loans.withRelease]
  split
  · exact refl l
  · have hleave : ∀ q c, (Cell.leave q).context = some c → q.context = some c := by
      intro q c e
      rw [Cell.leave] at e
      dsimp only at e
      split at e
      · cases e
      · exact e
    have h₁ : Steady l (Loans.changeHandle h ({ · with released := true }) l) :=
      changeHandle l h fun _ => rfl
    exact h₁.trans (changeCell _ _ hleave fun _ e => e)

theorem withLetGo (l : Loans Value) (h : Nat) : Steady l (l.withLetGo h) := by
  have h₁ : Steady l (Loans.changeHandle h (fun r => { r with holders := r.holders - 1 }) l) :=
    changeHandle l h fun _ => rfl
  rw [Loans.withLetGo]
  split
  · exact h₁.trans (withRelease _ h)
  · exact h₁

theorem letGoOf (l : Loans Value) (own lent : Nat) (cut : Bool) :
    Steady l (l.letGoOf own lent cut) := by
  rw [Loans.letGoOf]
  split
  · exact (withLetGo l lent).trans (withLetGo _ own)
  · exact withLetGo l own

/-- Whatever is done with a handle. -/
theorem effect {t : Touch} {h : Nat} (e : t.Effect h l m) : Steady l m := by
  cases e with
  | rests => exact refl l
  | writes => exact of_tables rfl rfl
  | joins => exact withHandle l _
  | releases => exact withRelease l h
  | holders f => exact changeHandle l h fun _ => rfl
  | letsGo => exact withLetGo l h

end Steady

/-! ### Loans with other contexts -/

namespace Loans

theorem Sound.withContexts (s : l.Sound) {t : Table (Context Value)}
    (size : t.size = l.contexts.size) : (l.withContexts t).Sound :=
  ⟨fun i r e => size ▸ s.slot_lt i r e, fun j q d e hd => size ▸ s.cell_lt j q d e hd, s.handle_lt⟩

theorem withContexts_withRelease (t : Table (Context Value)) (l : Loans Value) (h : Nat) :
    (l.withContexts t).withRelease h = (l.withRelease h).withContexts t := by
  by_cases hr : (l.handleAt h).released = true
  · have e : l.withRelease h = l := if_pos hr
    rw [e]
    exact if_pos hr
  · have e : l.withRelease h = changeCell (l.handleAt h).cell Cell.leave
        (changeHandle h ({ · with released := true }) l) := if_neg hr
    rw [e]
    exact if_neg hr

theorem withContexts_withLetGo (t : Table (Context Value)) (l : Loans Value) (h : Nat) :
    (l.withContexts t).withLetGo h = (l.withLetGo h).withContexts t := by
  let m := changeHandle h (fun r => { r with holders := r.holders - 1 }) l
  by_cases h₀ : (m.handleAt h).holders = 0
  · have e : l.withLetGo h = m.withRelease h := if_pos h₀
    rw [e, ← withContexts_withRelease]
    exact if_pos h₀
  · have e : l.withLetGo h = m := if_neg h₀
    rw [e]
    exact if_neg h₀

theorem withContexts_letGoOf (t : Table (Context Value)) (l : Loans Value) (own lent : Nat)
    (cut : Bool) :
    (l.withContexts t).letGoOf own lent cut = (l.letGoOf own lent cut).withContexts t := by
  rw [letGoOf, letGoOf]
  split
  · rw [withContexts_withLetGo, withContexts_withLetGo]
  · exact withContexts_withLetGo t l own

end Loans

/-- What is done to handles does not depend on contexts, and leaves them alone. -/
theorem Touch.exec_act_withContexts {t : Touch} (ht : t.block? = none) (h : Nat) (l : Loans Value)
    (x : Table (Context Value)) :
    ((t.act h).exec l).2.contexts = l.contexts ∧
      (t.act h).exec (l.withContexts x) =
        (((t.act h).exec l).1, ((t.act h).exec l).2.withContexts x) := by
  cases t with
  | access q | lock b => cases ht
  | duplicate =>
    rw [act, Loans.duplicate, bind_assoc, bind_assoc]
    rcases hr : (l.handleAt h).released with - | -
    · rw [Run.exec_bind_ok (Loans.exec_requireLive hr), Run.exec_bind_ok (s := l.withContexts x)
        (Loans.exec_requireLive (l := l.withContexts x) hr)]
      exact ⟨rfl, rfl⟩
    · rw [Run.exec_bind_error (Loans.exec_requireLive_released hr),
        Run.exec_bind_error (s := l.withContexts x)
          (Loans.exec_requireLive_released (l := l.withContexts x) hr)]
      exact ⟨rfl, rfl⟩
  | hold => exact ⟨rfl, rfl⟩
  | release =>
    refine ⟨Loans.contexts_withRelease l h, ?_⟩
    rw [act, Run.exec_bind_ok (Loans.exec_release h l), Run.exec_bind_ok (Loans.exec_release h _),
      Loans.withContexts_withRelease]
    rfl
  | letGo =>
    rw [act, Run.exec_bind_ok (Loans.exec_letGo h l), Run.exec_bind_ok (Loans.exec_letGo h _),
      Loans.withContexts_withLetGo]
    exact ⟨Loans.contexts_withLetGo l h, rfl⟩

/-! ### What a tag can reach -/

/-- Whether a handle is on a cell. -/
def Loans.onCell (k : Nat) (l : Loans Value) (h : Nat) : Bool := (l.handleAt h).cell = k

/-- While the context `c` is on loan in the cell `k`: the handles that a tag has, and the kept ones,
are on that cell, or on other cells that are free and hold other contexts. -/
structure InReach (k c : Nat) (hs : List Nat) (l : Loans Value) : Prop where
  free : (l.cellAt k).locked = false
  only : ∀ d, (l.cellAt k).context = some d → d = c
  there : ∀ h ∈ hs, h < l.handles.size
  others : ∀ h ∈ hs, (l.handleAt h).cell ≠ k →
    (l.cellOf h).locked = false ∧ (l.cellOf h).context ≠ some c

namespace InReach

variable {hs hs' : List Nat}

theorem steady (i : InReach k c hs l) (s : Steady l m) : InReach k c hs m where
  free := s.free k i.free
  only d e := i.only d (s.context k d e)
  there h hh := Nat.lt_of_lt_of_le (i.there h hh) s.handles
  others h hh hne := by
    have hcell := s.cell h (i.there h hh)
    obtain ⟨hfree, hctx⟩ := i.others h hh (hcell ▸ hne)
    rw [Loans.cellOf, hcell]
    exact ⟨s.free _ hfree, fun e => hctx (s.context _ c e)⟩

theorem mono (i : InReach k c hs l) (h : ∀ x ∈ hs', x ∈ hs) : InReach k c hs' l :=
  ⟨i.free, i.only, fun x hx => i.there x (h x hx), fun x hx => i.others x (h x hx)⟩

/-- The cell of each handle is free, and holds another context unless it is the cell of the loan. -/
theorem cellOf_free (i : InReach k c hs l) {h : Nat} (hh : h ∈ hs) :
    (l.cellOf h).locked = false := by
  by_cases hk : (l.handleAt h).cell = k
  · rw [Loans.cellOf, hk]
    exact i.free
  · exact (i.others h hh hk).1

/-- Handles that were made are in reach, too. -/
theorem made {mine kept made : List Nat} {h : Nat} (i : InReach k c (mine ++ kept) l)
    (hh : h ∈ mine ++ kept) (e : ∀ x ∈ made, x < l.handles.size ∧
      (l.handleAt x).cell = (l.handleAt h).cell) : InReach k c ((mine ++ made) ++ kept) l := by
  have hmem : ∀ x ∈ (mine ++ made) ++ kept, x ∈ mine ++ kept ∨ x ∈ made := by
    intro x hx
    simp only [List.mem_append] at hx ⊢
    tauto
  refine ⟨i.free, i.only, fun x hx => ?_, fun x hx hne => ?_⟩
  · rcases hmem x hx with hx | hx
    · exact i.there x hx
    · exact (e x hx).1
  · rcases hmem x hx with hx | hx
    · exact i.others x hx hne
    · rw [Loans.cellOf, (e x hx).2]
      exact i.others h hh ((e x hx).2 ▸ hne)

end InReach

end Stencil
