/-
Stencil/Proofs/Loan/Sound.lean

Loans that make sense: slots and cells hold contexts that are there, and every
handle belongs to a cell that is there.  There is nothing on loan at first, and
the ways of changing loans that renders use keep it so.
-/
import Stencil.Proofs.Loan.Locking

namespace Stencil

namespace Loans

variable {α : Type}

/-- Slots, cells and handles refer to rows that are there. -/
structure Sound (l : Loans α) : Prop where
  slot_lt : ∀ s r, l.slots.get? s = some r → r.context < l.contexts.size
  cell_lt : ∀ k q c, l.cells.get? k = some q → q.context = some c → c < l.contexts.size
  handle_lt : ∀ h r, l.handles.get? h = some r → r.cell < l.cells.size

namespace Sound

variable {l : Loans α}

theorem empty : (Loans.empty : Loans α).Sound where
  slot_lt _ _ e := nomatch e
  cell_lt _ _ _ e := nomatch e
  handle_lt _ _ e := nomatch e

theorem addContext (s : l.Sound) (x : Context α) :
    Sound { l with contexts := l.contexts.add x } where
  slot_lt i r e := by
    rw [Table.size_add]
    exact Nat.lt_succ_of_lt (s.slot_lt i r e)
  cell_lt k q c e hc := by
    rw [Table.size_add]
    exact Nat.lt_succ_of_lt (s.cell_lt k q c e hc)
  handle_lt := s.handle_lt

theorem changeContext (s : l.Sound) (c : Nat) (f : Context α → Context α) :
    (Loans.changeContext c f l).Sound where
  slot_lt i r e := by
    rw [Loans.changeContext, Table.size_modify]
    exact s.slot_lt i r e
  cell_lt k q d e hd := by
    rw [Loans.changeContext, Table.size_modify]
    exact s.cell_lt k q d e hd
  handle_lt := s.handle_lt

theorem changeSlot (s : l.Sound) (i : Nat) {f : Slot → Slot}
    (hf : ∀ r, (f r).context < l.contexts.size) : (Loans.changeSlot i f l).Sound where
  slot_lt j r e := by
    rw [Loans.changeSlot, Table.get?_modify] at e
    split at e
    · obtain ⟨r', -, rfl⟩ := Option.map_eq_some_iff.mp e
      exact hf r'
    · exact s.slot_lt j r e
  cell_lt := s.cell_lt
  handle_lt := s.handle_lt

theorem addCell (s : l.Sound) {q : Cell} (hq : ∀ c, q.context = some c → c < l.contexts.size) :
    Sound { l with cells := l.cells.add q } where
  slot_lt := s.slot_lt
  cell_lt k q' c e hc := by
    rw [Table.get?_add] at e
    split at e
    · obtain rfl := Option.some.inj e
      exact hq c hc
    · exact s.cell_lt k q' c e hc
  handle_lt h r e := by
    rw [Table.size_add]
    exact Nat.lt_succ_of_lt (s.handle_lt h r e)

/-- A cell may lose its context, but get no other. -/
theorem changeCell (s : l.Sound) (k : Nat) {f : Cell → Cell}
    (hf : ∀ q c, (f q).context = some c → q.context = some c) : (Loans.changeCell k f l).Sound where
  slot_lt := s.slot_lt
  cell_lt j q c e hc := by
    rw [Loans.changeCell, Table.get?_modify] at e
    split at e
    · obtain ⟨q', e', rfl⟩ := Option.map_eq_some_iff.mp e
      exact s.cell_lt j q' c e' (hf q' c hc)
    · exact s.cell_lt j q c e hc
  handle_lt h r e := by
    rw [Loans.changeCell, Table.size_modify]
    exact s.handle_lt h r e

theorem addHandle (s : l.Sound) {r : Handle} (hr : r.cell < l.cells.size) :
    Sound { l with handles := l.handles.add r } where
  slot_lt := s.slot_lt
  cell_lt := s.cell_lt
  handle_lt h r' e := by
    rw [Table.get?_add] at e
    split at e
    · obtain rfl := Option.some.inj e
      exact hr
    · exact s.handle_lt h r' e

theorem changeHandle (s : l.Sound) (h : Nat) {f : Handle → Handle}
    (hf : ∀ r, (f r).cell = r.cell) : (Loans.changeHandle h f l).Sound where
  slot_lt := s.slot_lt
  cell_lt := s.cell_lt
  handle_lt i r e := by
    rw [Loans.changeHandle, Table.get?_modify] at e
    split at e
    · obtain ⟨r', e', rfl⟩ := Option.map_eq_some_iff.mp e
      rw [hf r']
      exact s.handle_lt i r' e'
    · exact s.handle_lt i r e

theorem withHandle (s : l.Sound) {k : Nat} (hk : k < l.cells.size) : (l.withHandle k).Sound :=
  (s.addHandle hk).changeCell k fun _ _ hc => hc

theorem withRelease (s : l.Sound) (h : Nat) : (l.withRelease h).Sound := by
  rw [Loans.withRelease]
  split
  · exact s
  · have h₁ := s.changeHandle h (f := ({ · with released := true })) fun _ => rfl
    refine h₁.changeCell _ fun q c hc => ?_
    rw [Cell.leave] at hc
    dsimp only at hc
    split at hc
    · cases hc
    · exact hc

theorem withLetGo (s : l.Sound) (h : Nat) : (l.withLetGo h).Sound := by
  have h₁ := s.changeHandle h (f := fun r => { r with holders := r.holders - 1 }) fun _ => rfl
  rw [Loans.withLetGo]
  split
  · exact h₁.withRelease h
  · exact h₁

end Sound

end Loans

end Stencil
