/-
Stencil/Proofs/Render/OnLoan.lean

A context on loan, whoever has it.  Unlike a tag at work (`AtWork`), which has
handles on the lent cell only and whose count is exact, here the tag may be any
foreign code; all that is known of it is that it is *civil*: it leaves slots
alone, moves no handle to another cell and puts no other context into a cell.

That is enough to know, when the context is back, that the slot holds the lent
context or one made since (`Loan.Holds`), that nothing was touched but the slot,
the cell and the handles on it (`Loan.Around`), and that the lent context is in
the slot only if its cell is empty (`Loan.lend_back`).
-/
import Stencil.Proofs.Render.Handover
import Stencil.Proofs.Value.Drift

namespace Stencil

/-! ### Loans -/

/-- The numbers of one loan. -/
structure Loan where
  slot : Nat
  context : Nat
  /-- The context that holds its place in the slot. -/
  place : Nat
  cell : Nat
  /-- The handle of the render. -/
  own : Nat
  /-- The handle of the tag. -/
  lent : Nat

namespace Loan

variable {n : Loan} {l l' l'' : Loans Value}

/-- The cell holds the context or nothing, the slot the context or one made since, and both handles
belong to the cell. -/
structure Holds (n : Loan) (l : Loans Value) : Prop where
  context_lt : n.context < n.place
  place_le : n.place ≤ l.contexts.size
  slot_row : ∃ q, l.slots.get? n.slot = some q ∧
    (q.context = n.context ∨ n.place ≤ q.context) ∧ q.context < l.contexts.size
  cell_row : ∃ q, l.cells.get? n.cell = some q ∧
    (q.context = some n.context ∨ q.context = none)
  own_row : ∃ q, l.handles.get? n.own = some q ∧ q.cell = n.cell
  lent_row : ∃ q, l.handles.get? n.lent = some q ∧ q.cell = n.cell

/-- Whether the cell of a loan is empty. -/
def Empty (n : Loan) (l : Loans Value) : Prop :=
  ∃ q, l.cells.get? n.cell = some q ∧ q.context = none

/-- Nothing is touched but the slot, the cell and the handles on it, and the cell is not filled. -/
structure Around (n : Loan) (l l' : Loans Value) : Prop where
  contexts_size : l.contexts.size ≤ l'.contexts.size
  contexts : ∀ d, d < l.contexts.size → l'.contexts.get? d = l.contexts.get? d
  cells : ∀ j, j ≠ n.cell → l'.cells.get? j = l.cells.get? j
  handles : ∀ h q, l.handles.get? h = some q → q.cell ≠ n.cell → l'.handles.get? h = some q
  emptied : n.Empty l → n.Empty l'

theorem Around.refl (n : Loan) (l : Loans Value) : n.Around l l :=
  ⟨Nat.le_refl _, fun _ _ => rfl, fun _ _ => rfl, fun _ _ e _ => e, id⟩

theorem Around.trans (h : n.Around l l') (h' : n.Around l' l'') : n.Around l l'' where
  contexts_size := Nat.le_trans h.contexts_size h'.contexts_size
  contexts d hd := by
    rw [h'.contexts d (Nat.lt_of_lt_of_le hd h.contexts_size), h.contexts d hd]
  cells j hj := (h'.cells j hj).trans (h.cells j hj)
  handles i q e hq := h'.handles i q (h.handles i q e hq) hq
  emptied e := h'.emptied (h.emptied e)

/-- What the steps of getting a context back keep. -/
def Keeps (n : Loan) (l l' : Loans Value) : Prop := n.Holds l → n.Holds l' ∧ n.Around l l'

instance (n : Loan) : IsPreorder (Loans Value) n.Keeps where
  refl l h := ⟨h, .refl n l⟩
  trans _ _ _ k k' h := by
    obtain ⟨h', a⟩ := k h
    obtain ⟨h'', a'⟩ := k' h'
    exact ⟨h'', a.trans a'⟩

/-! ### Steps -/

/-- The cell keeps its context or loses it. -/
theorem keeps_changeCell {f : Cell → Cell}
    (hf : ∀ q, (f q).context = q.context ∨ (f q).context = none) :
    n.Keeps l (Loans.changeCell n.cell f l) := by
  intro h
  obtain ⟨q, e, hq⟩ := h.cell_row
  have e' : (Loans.changeCell n.cell f l).cells.get? n.cell = some (f q) :=
    Table.get?_modify_self _ e
  refine ⟨{ h with cell_row := ⟨f q, e', ?_⟩ }, { Around.refl n l with cells := ?_, emptied := ?_ }⟩
  · rcases hf q with hq' | hq'
    · rw [hq']
      exact hq
    · exact .inr hq'
  · intro j hj
    exact Table.get?_modify_of_ne _ _ hj.symm
  · rintro ⟨q', eq', hnone⟩
    obtain rfl := Option.some.inj (e.symm.trans eq')
    refine ⟨f q, e', ?_⟩
    rcases hf q with hq' | hq'
    · rw [hq', hnone]
    · exact hq'

/-- A handle on the cell stays on it. -/
theorem keeps_changeHandle {h : Nat} {q : Handle} (e : l.handles.get? h = some q)
    (hq : q.cell = n.cell) {f : Handle → Handle} (hf : ∀ q, (f q).cell = q.cell) :
    n.Keeps l (Loans.changeHandle h f l) := by
  have hrow : ∀ i, (∃ p, l.handles.get? i = some p ∧ p.cell = n.cell) →
      ∃ p, (Loans.changeHandle h f l).handles.get? i = some p ∧ p.cell = n.cell := by
    rintro i ⟨p, ep, hp⟩
    rw [Loans.changeHandle, Table.get?_modify, ep]
    split
    · exact ⟨f p, rfl, (hf p).trans hp⟩
    · exact ⟨p, rfl, hp⟩
  intro hh
  refine ⟨{ hh with own_row := hrow _ hh.own_row, lent_row := hrow _ hh.lent_row },
    { Around.refl n l with handles := ?_ }⟩
  intro i p ep hp
  refine (Table.get?_modify_of_ne _ _ ?_).trans ep
  rintro rfl
  obtain rfl := Option.some.inj (e.symm.trans ep)
  exact hp hq

theorem keeps_addContext (x : Context Value) :
    n.Keeps l { l with contexts := l.contexts.add x } := by
  intro h
  have hsize : (l.contexts.add x).size = l.contexts.size + 1 := Table.size_add ..
  obtain ⟨q, e, hq, hlt⟩ := h.slot_row
  refine ⟨{ h with place_le := ?_, slot_row := ⟨q, e, hq, ?_⟩ },
    { Around.refl n l with contexts_size := ?_, contexts := ?_ }⟩
  · show n.place ≤ (l.contexts.add x).size
    have hplace := h.place_le
    omega
  · show q.context < (l.contexts.add x).size
    omega
  · show l.contexts.size ≤ (l.contexts.add x).size
    omega
  · intro d hd
    exact Table.get?_add_of_lt _ hd

/-- The slot gets the lent context or one made since. -/
theorem keeps_changeSlot {c : Nat} (hc : c = n.context ∨ n.place ≤ c) (hlt : c < l.contexts.size) :
    n.Keeps l (Loans.changeSlot n.slot (fun _ => ⟨c, false⟩) l) := by
  intro h
  obtain ⟨q, e, -⟩ := h.slot_row
  refine ⟨{ h with slot_row := ⟨⟨c, false⟩, Table.get?_modify_self _ e, hc, hlt⟩ }, ?_⟩
  exact { Around.refl n l with }

theorem keeps_withRelease {h : Nat} {q : Handle} (e : l.handles.get? h = some q)
    (hq : q.cell = n.cell) : n.Keeps l (l.withRelease h) := by
  rw [Loans.withRelease, Loans.handleAt_eq e, hq]
  split
  · exact refl_of n.Keeps l
  · have hreleased : n.Keeps l (Loans.changeHandle h ({ · with released := true }) l) :=
      keeps_changeHandle e hq fun _ => rfl
    refine trans_of n.Keeps hreleased (keeps_changeCell fun p => ?_)
    rw [Cell.leave]
    dsimp only
    split
    · exact .inr rfl
    · exact .inl rfl

theorem keeps_withLetGo {h : Nat} {q : Handle} (e : l.handles.get? h = some q)
    (hq : q.cell = n.cell) : n.Keeps l (l.withLetGo h) := by
  have hholders : n.Keeps l (Loans.changeHandle h (fun r => { r with holders := r.holders - 1 }) l) :=
    keeps_changeHandle e hq fun _ => rfl
  rw [Loans.withLetGo]
  split
  · exact trans_of n.Keeps hholders (keeps_withRelease (Table.get?_modify_self _ e) hq)
  · exact hholders

/-! ### Getting back -/

/-- What getting a context back keeps of the world: values that are there stay. -/
def Backs (n : Loan) (w w' : World) : Prop := n.Keeps w.loans w'.loans ∧ w.heap.Drift w'.heap

instance (n : Loan) : IsPreorder World n.Backs where
  refl w := ⟨refl_of n.Keeps w.loans, .refl w.heap⟩
  trans _ _ _ h h' := ⟨trans_of n.Keeps h.1 h'.1, h.2.trans h'.2⟩

variable {w w' : World}

theorem Backs.holds (b : n.Backs w w') (h : n.Holds w.loans) : n.Holds w'.loans := (b.1 h).1

theorem Backs.around (b : n.Backs w w') (h : n.Holds w.loans) : n.Around w.loans w'.loans :=
  (b.1 h).2

theorem Backs.of_loans (k : n.Keeps w.loans l) : n.Backs w { w with loans := l } :=
  ⟨k, .refl w.heap⟩

/-- A run on the loans whose effect is known. -/
theorem leads_onLoans {β : Type} {act : Run (Loans Value) β} {a : β} {good : World → β → Prop}
    (e : act.exec w.loans = (.ok a, l)) (k : n.Keeps w.loans l)
    (hgood : good { w with loans := l } a) : (onLoans act).Leads n.Backs w good :=
  .of_ok (exec_onLoans e) (.of_loans k) hgood

theorem leads_onLoans_error {β : Type} {act : Run (Loans Value) β} {f : Stop}
    {good : World → β → Prop} (e : act.exec w.loans = (.error f, w.loans)) :
    (onLoans act).Leads n.Backs w good :=
  .of_error (exec_onLoans e) (.of_loans (refl_of n.Keeps w.loans))

theorem Holds.cell_own (h : n.Holds l) : (l.handleAt n.own).cell = n.cell := by
  obtain ⟨q, e, hq⟩ := h.own_row
  rw [Loans.handleAt_eq e, hq]

theorem keeps_release (h : n.Holds w.loans) :
    (onLoans (Loans.release n.own)).Keeps n.Backs w := by
  obtain ⟨q, e, hq⟩ := h.own_row
  exact leads_onLoans (Loans.exec_release n.own w.loans) (keeps_withRelease e hq) trivial

theorem leads_detach (h : n.Holds w.loans) :
    (onLoans (Loans.detach n.cell)).Leads n.Backs w fun w' c =>
      c = n.context ∧ n.Empty w'.loans := by
  obtain ⟨q, e, hq | hq⟩ := h.cell_row
  · have hdetach : (Loans.detach n.cell).exec w.loans = (.ok n.context, w.loans.detached n.cell) := by
      rw [Loans.detach, Run.exec_get_bind, Loans.cellAt_eq e, hq]
      rfl
    have k : n.Keeps w.loans (w.loans.detached n.cell) := keeps_changeCell fun _ => .inr rfl
    exact leads_onLoans hdetach k ⟨rfl, _, Table.get?_modify_self _ e, rfl⟩
  · refine leads_onLoans_error (f := .failed (.of Loans.alreadyDetached)) ?_
    rw [Loans.detach, Run.exec_get_bind, Loans.cellAt_eq e, hq]
    rfl

/-- The context comes back itself, and its cell is empty. -/
theorem leads_reclaimUnique (h : n.Holds w.loans) :
    (reclaimUnique n.own).Leads n.Backs w fun w' c => c = n.context ∧ n.Empty w'.loans := by
  rw [reclaimUnique]
  refine .get_bind ?_
  split
  · exact .fail _
  · rw [h.cell_own]
    refine .bind (leads_detach h) fun c w₁ h₁ hc => ?_
    refine .bind (keeps_release (h₁.holds h)) fun _ w₂ h₂ _ => .pure ⟨hc.1, ?_⟩
    exact (h₂.around (h₁.holds h)).emptied hc.2

/-- A copy of the context is a new context. -/
theorem leads_copyContext (h : n.Holds w.loans) (c : Nat) :
    (copyContext Copying.deepCopy c).Leads n.Backs w fun w' d =>
      n.place ≤ d ∧ d < w'.loans.contexts.size := by
  rcases e : ((w.loans.contextAt c).copyWith Copying.deepCopy recordSharing).exec
    ⟨w.heap, [], [], []⟩ with ⟨f | copy, s⟩
  all_goals
    have hdrift : w.heap.Drift (((w.loans.contextAt c).copyWith Copying.deepCopy
        recordSharing).exec ⟨w.heap, [], [], []⟩).2.heap :=
      Copying.drift_copyWith .deep (w.loans.contextAt c) ⟨w.heap, [], [], []⟩
    rw [e] at hdrift
  · exact .of_error (exec_copyContext_error e) ⟨refl_of n.Keeps w.loans, hdrift⟩
  · refine .of_ok (exec_copyContext_ok e) ⟨keeps_addContext copy, hdrift⟩ ⟨h.place_le, ?_⟩
    show w.loans.contexts.size < (w.loans.contexts.add copy).size
    rw [Table.size_add]
    exact Nat.lt_succ_self _

theorem keeps_unlock : (onLoans (Loans.unlock n.cell)).Keeps n.Backs w :=
  leads_onLoans (Loans.exec_unlock n.cell w.loans) (keeps_changeCell fun _ => .inl rfl) trivial

theorem leads_acquire (h : n.Holds w.loans) :
    (onLoans (Loans.acquire n.own .forever)).Leads n.Backs w fun _ k => k = n.cell := by
  have hcell := h.cell_own
  rcases Loans.exec_acquire_cases n.own w.loans with ⟨-, e⟩ | ⟨f, e⟩
  · rw [hcell] at e
    exact leads_onLoans e (keeps_changeCell fun _ => .inl rfl) rfl
  · exact leads_onLoans_error e

theorem keeps_contextInside (k : Nat) : (onLoans (Loans.contextInside k)).Keeps n.Backs w := by
  rcases Loans.exec_contextInside_cases k w.loans with ⟨c, -, e⟩ | ⟨f, e⟩
  · exact leads_onLoans e (refl_of n.Keeps w.loans) trivial
  · exact leads_onLoans_error e

theorem keeps_writeRecord (x : Record) : (writeRecord x).Keeps n.Backs w :=
  .of_exec rfl ⟨refl_of n.Keeps w.loans, .refl w.heap⟩ fun _ _ => trivial

/-- A copy comes back, which is a new context. -/
theorem leads_reclaimCopy (h : n.Holds w.loans) :
    (reclaimCopy n.own Copying.deepCopy).Leads n.Backs w fun w' d =>
      n.place ≤ d ∧ d < w'.loans.contexts.size := by
  rw [reclaimCopy]
  refine .bind (leads_acquire h) fun k w₁ h₁ hk => ?_
  obtain rfl := hk
  have hh₁ := h₁.holds h
  have hcopy : (do let c ← onLoans (Loans.contextInside n.cell)
                   copyContext Copying.deepCopy c : Run World Nat).Leads n.Backs w₁ fun w' d =>
      n.place ≤ d ∧ d < w'.loans.contexts.size :=
    .bind (keeps_contextInside n.cell) fun c w₂ h₂ _ => leads_copyContext (h₂.holds hh₁) c
  refine .bind (.ensuring hcopy (fun _ _ => keeps_unlock) fun d w₂ _ hd => hd)
    fun d w₂ h₂ hd => .get_bind ?_
  have hh₂ := h₂.holds hh₁
  refine .bind (keeps_writeRecord _) fun _ w₃ h₃ _ => ?_
  refine .bind (keeps_release (h₃.holds hh₂)) fun _ w₄ h₄ _ => .pure ⟨hd.1, ?_⟩
  have hle := (h₃.around hh₂).contexts_size
  have hle' := (h₄.around (h₃.holds hh₂)).contexts_size
  omega

theorem keeps_countPath (path : ReclaimPath) : (countPath path).Keeps n.Backs w := by
  refine .of_exec rfl ⟨?_, ?_⟩ fun _ _ => trivial
  · rw [World.loans_changeTally]
    exact refl_of n.Keeps w.loans
  · rw [World.heap_changeTally]
    exact .refl w.heap

/-- The very context comes back, and its cell is empty, or a new one. -/
theorem leads_reclaim (h : n.Holds w.loans) :
    (reclaim n.own Copying.deepCopy).Leads n.Backs w fun w' p =>
      (p.1 = n.context ∨ n.place ≤ p.1) ∧ p.1 < w'.loans.contexts.size ∧
        (p.1 = n.context → n.Empty w'.loans) := by
  rw [reclaim]
  refine .get_bind ?_
  split
  · refine .bind (leads_reclaimUnique h) fun c w₁ h₁ hc => ?_
    refine .bind (keeps_countPath .unique) fun _ w₂ h₂ _ => .pure ⟨.inl hc.1, ?_, fun _ => ?_⟩
    · have hh₂ := h₂.holds (h₁.holds h)
      exact hc.1 ▸ Nat.lt_of_lt_of_le hh₂.context_lt hh₂.place_le
    · exact (h₂.around (h₁.holds h)).emptied hc.2
  · refine .bind (leads_reclaimCopy h) fun c w₁ h₁ hc => ?_
    refine .bind (keeps_countPath .deepCopy) fun _ w₂ h₂ _ => .pure ⟨.inr hc.1, ?_, fun e => ?_⟩
    · exact Nat.lt_of_lt_of_le hc.2 (h₂.around (h₁.holds h)).contexts_size
    · have hc₀ : c = n.context := e
      exact absurd hc.1 (hc₀ ▸ Nat.not_le.mpr h.context_lt)

/-- The lent context is in the slot only if its cell is empty. -/
def Parted (n : Loan) (l : Loans Value) : Prop :=
  ∀ q, l.slots.get? n.slot = some q → q.context = n.context → n.Empty l

/-- However getting the context back ends, the slot gets a context. -/
theorem leads_restore (h : n.Holds w.loans) :
    (restore n.slot n.own Copying.deepCopy).Leads n.Backs w fun w' _ => n.Parted w'.loans := by
  rw [restore]
  refine .bind (.mending (leads_reclaim h) fun w₁ h₁ => .get_bind ?_) fun p w₁ h₁ hp => ?_
  · have hh₁ := h₁.holds h
    rw [Loans.cellOf, hh₁.cell_own]
    obtain ⟨q, e, hq | hq⟩ := hh₁.cell_row
    · have k : n.Keeps w₁.loans _ := keeps_changeSlot (.inl rfl)
        (Nat.lt_of_lt_of_le hh₁.context_lt hh₁.place_le)
      rw [Loans.cellAt_eq e, hq]
      exact leads_onLoans rfl k trivial
    · rw [Loans.cellAt_eq e, hq]
      exact .pure trivial
  · have hh₁ := h₁.holds h
    obtain ⟨hc, hlt, hempty⟩ := hp
    have hswap : (onLoans (Loans.swapBack n.slot p.1)).Leads n.Backs w₁ fun w' _ =>
        n.Parted w'.loans := by
      refine leads_onLoans rfl (keeps_changeSlot hc hlt) fun q eq hq => ?_
      obtain ⟨q₀, e, -⟩ := hh₁.slot_row
      have e' : (Loans.changeSlot n.slot (fun _ => ⟨p.1, false⟩) w₁.loans).slots.get? n.slot
          = some ⟨p.1, false⟩ := Table.get?_modify_self _ e
      obtain rfl := Option.some.inj (e'.symm.trans eq)
      exact hempty hq
    exact .bind hswap fun _ _ _ hw₂ => .pure hw₂

theorem leads_getBack (h : n.Holds w.loans) (name : String) :
    (getBack name n.slot n.own Copying.deepCopy).Leads n.Backs w fun w' _ => n.Parted w'.loans := by
  rw [getBack]
  exact .bind (leads_restore h) fun path w₁ h₁ hw₁ =>
    .of_exec rfl ⟨refl_of n.Keeps w₁.loans, .refl w₁.heap⟩ fun _ _ => hw₁

theorem keeps_letGoOf (h : n.Holds l) (cut : Bool) : n.Keeps l (l.letGoOf n.own n.lent cut) := by
  obtain ⟨p, ep, hp⟩ := h.lent_row
  have hlent : n.Keeps l (if cut then l.withLetGo n.lent else l) := by
    split
    · exact keeps_withLetGo ep hp
    · exact refl_of n.Keeps l
  obtain ⟨q, e, hq⟩ := (hlent h).1.own_row
  exact trans_of n.Keeps hlent (keeps_withLetGo e hq)

/-- The second half of a call. -/
theorem back_endCall (h : n.Holds w.loans) (name : String) (result : Except Stop Value) :
    let out := endCall n.own n.lent result
      ((getBack name n.slot n.own Copying.deepCopy).exec w)
    n.Backs w out.2 ∧ ∀ v, out.1 = .ok v → n.Parted out.2.loans := by
  have hback := leads_getBack h name
  have hh := hback.state.holds h
  have k := keeps_letGoOf hh (cutShort result)
  have hend : n.Backs ((getBack name n.slot n.own Copying.deepCopy).exec w).2 (endCall n.own n.lent
      result ((getBack name n.slot n.own Copying.deepCopy).exec w)).2 := .of_loans k
  refine ⟨trans_of n.Backs hback.state hend, fun v ev q eq hq => ?_⟩
  rcases e : ((getBack name n.slot n.own Copying.deepCopy).exec w) with ⟨f | u, w'⟩
  · rw [e] at ev
    cases ev
  · rw [e] at k eq hh
    rw [endCall, Loans.slots_letGoOf] at eq
    exact (k hh).2.emptied (hback.result u w' e q eq hq)

/-! ### A whole call -/

/-- The next loan of the context of a slot. -/
def next (slot : Nat) (l : Loans Value) : Loan where
  slot := slot
  context := (l.slotAt slot).context
  place := l.contexts.size
  cell := l.cells.size
  own := l.handles.size
  lent := l.handles.size + 1

variable {slot : Nat} {q : Slot}

/-- At the beginning the slot holds the placeholder, and both handles are there. -/
theorem holds_lentOut (e : l.slots.get? slot = some q) (hlt : q.context < l.contexts.size) :
    (next slot l).Holds (l.lentOut slot q.context) := by
  have hsize : (l.contexts.add .empty).size = l.contexts.size + 1 := Table.size_add ..
  have hcontext : (l.slotAt slot).context = q.context := by rw [Loans.slotAt_eq e]
  have hslot : (l.lentOut slot q.context).slots.get? slot = some ⟨l.contexts.size, true⟩ :=
    Table.get?_modify_self _ e
  have hown : (l.handles.add ⟨l.cells.size, false, 1⟩).get? l.handles.size
      = some ⟨l.cells.size, false, 1⟩ := Table.get?_add_new ..
  have hlent : l.handles.size + 1 = (l.handles.add ⟨l.cells.size, false, 1⟩).size :=
    (Table.size_add ..).symm
  refine ⟨?_, ?_, ⟨_, hslot, .inr (Nat.le_refl _), ?_⟩, ⟨⟨some q.context, 2, false, false⟩, ?_, ?_⟩,
    ⟨_, (Table.get?_add_of_lt _ (Table.lt_size hown)).trans hown, rfl⟩,
    ⟨⟨l.cells.size, false, 1⟩, ?_, rfl⟩⟩
  · show (l.slotAt slot).context < l.contexts.size
    rw [hcontext]
    exact hlt
  · show l.contexts.size ≤ (l.contexts.add .empty).size
    omega
  · show l.contexts.size < (l.contexts.add .empty).size
    omega
  · exact Table.get?_modify_self _ (Table.get?_modify_self _ (Table.get?_add_new ..))
  · exact .inl (congrArg some hcontext.symm)
  · show (Table.add _ _).get? (l.handles.size + 1) = _
    rw [hlent]
    exact Table.get?_add_new ..

theorem around_lentOut (slot c : Nat) (l : Loans Value) :
    (next slot l).Around l (l.lentOut slot c) where
  contexts_size := by
    show l.contexts.size ≤ (l.contexts.add .empty).size
    rw [Table.size_add]
    exact Nat.le_succ _
  contexts _ hd := Table.get?_add_of_lt _ hd
  cells j hj := by
    have hne : l.cells.size ≠ j := Ne.symm hj
    show (((l.cells.add _).modify _ _).modify _ _).get? j = _
    rw [Table.get?_modify_of_ne _ _ hne, Table.get?_modify_of_ne _ _ hne, Table.get?_add,
      if_neg hne.symm]
  handles h p e _ := by
    have hlt := Table.lt_size e
    show ((l.handles.add _).add _).get? h = _
    rw [Table.get?_add_of_lt _ (by rw [Table.size_add]; exact Nat.lt_succ_of_lt hlt),
      Table.get?_add_of_lt _ hlt, e]
  emptied he := by
    obtain ⟨p, e, -⟩ := he
    exact absurd (Table.lt_size e) (Nat.lt_irrefl _)

/-- The tag gives its handle back. -/
theorem backs_endOfCall (name : String) (body : Run World Value) (w₀ : World)
    (h : n.Holds (body.exec w₀).2.loans) :
    n.Backs (body.exec w₀).2 (w₀.endOfCall name n.lent body) := by
  rw [World.endOfCall, callTag_rest, exec_giveBack]
  split
  · exact ⟨refl_of n.Keeps _, .refl _⟩
  · obtain ⟨p, e, hp⟩ := h.lent_row
    exact ⟨keeps_withLetGo e hp, .refl _⟩

/-- What a call does once the body of the tag is done, when the context is still on loan then. -/
theorem lend_back (e : w.loans.slots.get? slot = some q) (name : String)
    (body : Nat → Run World Value) :
    let n := next slot w.loans
    let done := ((body n.lent).exec (w.startOfCall slot q.context)).2
    let out := (lend name slot Copying.deepCopy body).exec w
    n.Holds done.loans → n.Backs done out.2 ∧ ∀ v, out.1 = .ok v → n.Parted out.2.loans := by
  intro n done out hdone
  have hend := backs_endOfCall name (body n.lent) (w.startOfCall slot q.context) hdone
  have hcontext : (w.loans.slotAt slot).context = q.context := by rw [Loans.slotAt_eq e]
  have hout : out = _ := exec_lend name slot Copying.deepCopy body w
  rw [hcontext] at hout
  obtain ⟨hback, hparted⟩ := back_endCall (hend.holds hdone) name
    ((callTag name (giveBack n.lent (body n.lent))).exec (w.startOfCall slot q.context)).1
  rw [hout]
  exact ⟨trans_of n.Backs hend hback, hparted⟩

end Loan

end Stencil
