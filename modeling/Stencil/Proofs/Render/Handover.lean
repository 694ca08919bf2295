/-
Stencil/Proofs/Render/Handover.lean

The contract of a tag call.  However a context tag behaves, whatever function
copies values, and whichever handles outlive the call: afterwards the slot
holds a real context again, with the frames and names it had and the writes of
the tag (`renderTag_refills`).

The call is cut in two.  Until the context is asked back the tag is at work,
so `Conduct.run_worked` says what it did; then one of the three equations of
`Stencil.Proofs.Render.Reclaim` applies.
-/
import Stencil.Proofs.Render.Reclaim
import Stencil.Proofs.Scope.Copy

namespace Stencil

variable {own k c : Nat} {mine : List Nat} {ws : List Write}

/-! ### The body of a tag -/

/-- Reporting a fault touches the records only. -/
theorem callTag_rest (name : String) (body : Run World Value) (w : World) :
    ((callTag name body).exec w).2 =
      { (body.exec w).2 with records := ((callTag name body).exec w).2.records } := by
  rw [callTag, Run.exec_catching]
  rcases body.exec w with ⟨(f | -) | v, w'⟩
  · dsimp only
    split
    · split
      · rfl
      · rfl
    · rfl
  · rfl
  · rfl

/-- The tag gives its handle back, unless it is cut short. -/
theorem exec_giveBack (lent : Nat) (body : Run World Value) (w : World) :
    (giveBack lent body).exec w =
      ((body.exec w).1,
        if cutShort (body.exec w).1 then (body.exec w).2
        else { (body.exec w).2 with loans := (body.exec w).2.loans.withLetGo lent }) := by
  rw [giveBack, Run.exec_outcome_bind]
  split
  · rfl
  · rw [onLoans, Run.exec_bind, Run.exec_within, Loans.exec_letGo]
    rfl

/-- The world when a tag that has the handle `lent` is done, just before the context is asked
back. -/
def World.endOfCall (name : String) (lent : Nat) (body : Run World Value) (w : World) : World :=
  ((callTag name (giveBack lent body)).exec w).2

/-- A whole call of a tag leaves a tag at work, and does nothing but its writes. -/
theorem Conduct.endOfCall_worked (name : String) (d : Conduct) {lent : Nat} {w : World}
    (a : AtWork own k c [lent] w.loans) :
    let w' := w.endOfCall name lent (d.run [lent])
    AtWork own k c [lent] w'.loans ∧ Beside k c w.loans w'.loans ∧
      w'.loans.contextAt c = (w.loans.contextAt c).writeAll (d.writes [lent] w) := by
  have h := d.run_worked a
  have hloans : (w.endOfCall name lent (d.run [lent])).loans
      = ((giveBack lent (d.run [lent])).exec w).2.loans := by
    rw [World.endOfCall, callTag_rest]
  have hmem : lent ∈ [lent] := List.mem_singleton_self lent
  obtain ⟨-, r, e, hk⟩ := h.atWork.mine_row lent hmem
  dsimp only
  rw [hloans, exec_giveBack]
  split
  · exact ⟨h.atWork, h.beside, h.context⟩
  · refine ⟨h.atWork.withLetGo hmem, h.beside.trans (.withLetGo c e hk), ?_⟩
    show ((((d.run [lent]).exec w).2.loans.withLetGo lent).contexts.get? c).getD .empty = _
    rw [Loans.contexts_withLetGo]
    exact h.context

/-! ### Lending and getting back -/

/-- The world when the tag of a call begins, by the slot and its context. -/
def World.startOfCall (slot c : Nat) (w : World) : World :=
  { w.changeTally Tally.start with loans := w.loans.lentOut slot c }

/-- Getting back the context, and the record of it. -/
def getBack (name : String) (slot own : Nat) (clone : Clone) : Run World Unit := do
  let path ← restore slot own clone
  writeRecord (.returned name path)

/-- The loans when the handles are gone that a call leaves to the render. -/
def Loans.letGoOf (own lent : Nat) (cut : Bool) (l : Loans Value) : Loans Value :=
  (if cut then l.withLetGo lent else l).withLetGo own

/-- The end of a call: the handles are let go of, and it ends by the fault of getting the context
back, else as the tag did. -/
def endCall (own lent : Nat) (result : Except Stop Value) (back : Except Stop Unit × World) :
    Except Stop Value × World :=
  (match back.1 with
    | .ok _ => result
    | .error e => .error e,
    { back.2 with loans := back.2.loans.letGoOf own lent (cutShort result) })

theorem exec_onLoans {β : Type} {act : Run (Loans Value) β} {w : World} {l : Loans Value}
    {r : Except Stop β} (h : act.exec w.loans = (r, l)) :
    (onLoans act).exec w = (r, { w with loans := l }) := by
  rw [onLoans, Run.exec_within, h]

theorem Loans.exec_duplicate_own (slot c : Nat) (l : Loans Value) :
    (duplicate l.handles.size).exec ((l.takenOut slot c).withHandle l.cells.size) =
      (.ok (l.handles.size + 1), l.lentOut slot c) := by
  have hrow : ((l.takenOut slot c).withHandle l.cells.size).handleAt l.handles.size
      = ⟨l.cells.size, false, 1⟩ := handleAt_eq (Table.get?_add_new ..)
  have hsize : ((l.takenOut slot c).withHandle l.cells.size).handles.size = l.handles.size + 1 :=
    Table.size_add ..
  rw [duplicate, Run.exec_bind_ok (exec_requireLive (by rw [hrow])), Run.exec_get_bind, hrow,
    exec_addHandle, hsize]
  rfl

/-- A call in its two halves. -/
theorem exec_lend (name : String) (slot : Nat) (clone : Clone) (body : Nat → Run World Value)
    (w : World) :
    (lend name slot clone body).exec w =
      let own := w.loans.handles.size
      let w₀ := w.startOfCall slot (w.loans.slotAt slot).context
      let r := (callTag name (giveBack (own + 1) (body (own + 1)))).exec w₀
      endCall own (own + 1) r.1 ((getBack name slot own clone).exec r.2) := by
  have htake : (Loans.take slot).exec (w.changeTally Tally.start).loans
      = (.ok (w.loans.slotAt slot).context, w.loans.taken slot) := by
    rw [World.loans_changeTally]
    rfl
  have hwrap : (Loans.wrap (w.loans.slotAt slot).context).exec (w.loans.taken slot)
      = (.ok w.loans.handles.size,
        (w.loans.takenOut slot (w.loans.slotAt slot).context).withHandle w.loans.cells.size) := rfl
  rw [lend, Run.exec_modify_bind, Run.exec_bind_ok (exec_onLoans htake),
    Run.exec_bind_ok (exec_onLoans hwrap),
    Run.exec_bind_ok (exec_onLoans (Loans.exec_duplicate_own slot _ w.loans)),
    Run.exec_outcome_bind, Run.exec_outcome_bind]
  dsimp only
  rw [← World.startOfCall]
  generalize (callTag name (giveBack (w.loans.handles.size + 1)
    (body (w.loans.handles.size + 1)))).exec (w.startOfCall slot (w.loans.slotAt slot).context) = r
  obtain ⟨r, w₁⟩ := r
  rw [← getBack, endCall, Loans.letGoOf]
  generalize (getBack name slot w.loans.handles.size clone).exec w₁ = b
  obtain ⟨b, w₂⟩ := b
  dsimp only
  split
  · rw [Run.exec_bind_ok (exec_onLoans (Loans.exec_letGo ..)),
      Run.exec_bind_ok (exec_onLoans (Loans.exec_letGo ..))]
    rcases b with e | - <;> rfl
  · rw [Run.exec_bind_ok (exec_onLoans (Loans.exec_letGo ..))]
    rcases b with e | - <;> rfl

/-! ### The slot afterwards -/

theorem Loans.slots_withRelease {α : Type} (l : Loans α) (h : Nat) :
    (l.withRelease h).slots = l.slots := by
  rw [withRelease]
  split <;> rfl

theorem Loans.slots_withLetGo {α : Type} (l : Loans α) (h : Nat) :
    (l.withLetGo h).slots = l.slots := by
  rw [withLetGo]
  split
  · exact slots_withRelease _ h
  · rfl

theorem Loans.slots_letGoOf (own lent : Nat) (cut : Bool) (l : Loans Value) :
    (l.letGoOf own lent cut).slots = l.slots := by
  rw [letGoOf, slots_withLetGo]
  split
  · exact slots_withLetGo l lent
  · rfl

theorem Loans.contexts_letGoOf (own lent : Nat) (cut : Bool) (l : Loans Value) :
    (l.letGoOf own lent cut).contexts = l.contexts := by
  rw [letGoOf, contexts_withLetGo]
  split
  · exact contexts_withLetGo l lent
  · rfl

theorem Loans.Sound.letGoOf {l : Loans Value} (s : l.Sound) (own lent : Nat) (cut : Bool) :
    (l.letGoOf own lent cut).Sound := by
  rw [Loans.letGoOf]
  split
  · exact (s.withLetGo lent).withLetGo own
  · exact s.withLetGo own

/-- How the slot is refilled, by what a tag left behind in the world `w`: with the very context, or
with a copy, or, when copying stops, with the shared context. -/
inductive Refill (clone : Clone) (own k c slot : Nat) (w : World) : Loans Value → Prop
  | unique (alone : w.loans.live k = {own}) :
      Refill clone own k c slot w (w.loans.backUnique own k slot c)
  | copied (shared : w.loans.live k ≠ {own}) (copy : Context Value) (s : Copying)
      (e : ((w.loans.contextAt c).copyWith clone recordSharing).exec ⟨w.heap, [], [], []⟩
        = (.ok copy, s)) :
      Refill clone own k c slot w
        (Loans.changeSlot slot (fun _ => ⟨w.loans.contexts.size, false⟩)
          (w.copiedBack own k copy s).loans)
  | stopped (shared : w.loans.live k ≠ {own}) (f : Stop) (s : Copying)
      (e : ((w.loans.contextAt c).copyWith clone recordSharing).exec ⟨w.heap, [], [], []⟩
        = (.error f, s)) :
      Refill clone own k c slot w (Loans.changeSlot slot (fun _ => ⟨c, false⟩) w.loans)

theorem getBack_refills {w : World} (a : AtWork own k c mine w.loans) (name : String) (slot : Nat)
    (clone : Clone) :
    Refill clone own k c slot w ((getBack name slot own clone).exec w).2.loans := by
  by_cases alone : w.loans.live k = {own}
  · rw [getBack, Run.exec_bind_ok (a.exec_restore_unique alone slot clone)]
    exact .unique alone
  · rcases e : ((w.loans.contextAt c).copyWith clone recordSharing).exec ⟨w.heap, [], [], []⟩
      with ⟨f | copy, s⟩
    · rw [getBack, Run.exec_bind_error (a.exec_restore_stopped alone slot e)]
      exact .stopped alone f s e
    · rw [getBack, Run.exec_bind_ok (a.exec_restore_copied alone slot e)]
      exact .copied alone copy s e

namespace Refill

variable {clone : Clone} {slot : Nat} {w : World} {l : Loans Value}

/-- What the slot holds: the old context, or a new one that is a copy of it. -/
theorem slot_row (r : Refill clone own k c slot w l) {r₀ : Slot}
    (hslot : w.loans.slots.get? slot = some r₀) :
    ∃ x, l.slots.get? slot = some ⟨x, false⟩ ∧
      (w.loans.live k = {own} ∧ x = c ∨
        w.loans.live k ≠ {own} ∧ ∃ r s,
          ((w.loans.contextAt c).copyWith clone recordSharing).exec ⟨w.heap, [], [], []⟩ = (r, s) ∧
          ((∃ f, r = .error f ∧ x = c) ∨
            ∃ copy, r = .ok copy ∧ x = w.loans.contexts.size ∧ l.contextAt x = copy)) := by
  cases r with
  | unique alone =>
    refine ⟨c, Table.get?_modify_self _ (a := r₀) ?_, .inl ⟨alone, rfl⟩⟩
    rw [Loans.slots_withRelease]
    exact hslot
  | copied shared copy s e =>
    refine ⟨w.loans.contexts.size, Table.get?_modify_self _ (a := r₀) ?_,
      .inr ⟨shared, _, s, e, .inr ⟨copy, rfl, rfl, Loans.contextAt_eq ?_⟩⟩⟩
    · rw [World.copiedBack, Loans.slots_withRelease]
      exact hslot
    · show (w.copiedBack own k copy s).loans.contexts.get? _ = some copy
      rw [World.copiedBack, Loans.contexts_withRelease]
      exact Table.get?_add_new ..
  | stopped shared f s e =>
    exact ⟨c, Table.get?_modify_self _ hslot, .inr ⟨shared, _, s, e, .inl ⟨f, rfl, rfl⟩⟩⟩

/-- The lent context is as the tag left it. -/
theorem contextAt_lent (r : Refill clone own k c slot w l) (hc : c < w.loans.contexts.size) :
    l.contextAt c = w.loans.contextAt c := by
  cases r with
  | unique =>
    show (((w.loans.detached k).withRelease own).contexts.get? c).getD .empty = _
    rw [Loans.contexts_withRelease]
    rfl
  | copied _ copy s =>
    show (((w.copiedBack own k copy s).loans).contexts.get? c).getD .empty = _
    rw [World.copiedBack, Loans.contexts_withRelease]
    show ((w.loans.contexts.add copy).get? c).getD .empty = _
    rw [Table.get?_add_of_lt _ hc]
    rfl
  | stopped => rfl

theorem sound (r : Refill clone own k c slot w l) (s : w.loans.Sound)
    (hc : c < w.loans.contexts.size) : l.Sound := by
  cases r with
  | unique =>
    have hdetached : (w.loans.detached k).Sound := s.changeCell k fun q d h => by cases h
    have h₁ : ((w.loans.detached k).withRelease own).Sound := hdetached.withRelease own
    refine h₁.changeSlot slot fun _ => ?_
    rw [Loans.contexts_withRelease]
    exact hc
  | copied _ copy t =>
    have h₁ : (w.copiedBack own k copy t).loans.Sound := (s.addContext copy).withRelease own
    refine h₁.changeSlot slot fun _ => ?_
    rw [World.copiedBack, Loans.contexts_withRelease]
    show _ < (w.loans.contexts.add copy).size
    rw [Table.size_add]
    exact Nat.lt_succ_self _
  | stopped => exact s.changeSlot slot fun _ => hc

end Refill

/-- What a tag leaves alone keeps the loans sound. -/
theorem Beside.sound {l m : Loans Value} (b : Beside k c l m) (a : AtWork own k c mine m)
    (s : l.Sound) : m.Sound where
  slot_lt i r e := by
    rw [b.contexts_size]
    exact s.slot_lt i r (b.slots ▸ e)
  cell_lt j q d e hd := by
    by_cases hj : j = k
    · subst hj
      obtain ⟨n, e'⟩ := a.cell_row
      rw [e, Option.some.injEq] at e'
      rw [e', Option.some.injEq] at hd
      exact hd ▸ a.context_lt
    · rw [b.contexts_size]
      exact s.cell_lt j q d ((b.cells j hj).symm.trans e) hd
  handle_lt h r e := by
    obtain ⟨n, e'⟩ := a.cell_row
    have hk : k < m.cells.size := Table.lt_size e'
    by_cases hlt : h < l.handles.size
    · obtain ⟨r', er⟩ := Table.exists_get? hlt
      obtain ⟨r'', er', hcell, -⟩ := b.handles h r' er
      rw [e, Option.some.injEq] at er'
      rw [er', hcell, b.cells_size]
      exact s.handle_lt h r' er
    · rw [b.made h r e (Nat.le_of_not_lt hlt)]
      exact hk

theorem Loans.Sound.lentOut {l : Loans Value} (s : l.Sound) (slot : Nat)
    (hc : c < l.contexts.size) : (l.lentOut slot c).Sound := by
  have hsize : l.contexts.size < (l.contexts.add .empty).size := by
    rw [Table.size_add]
    exact Nat.lt_succ_self _
  have h₁ : (l.taken slot).Sound := (s.addContext .empty).changeSlot slot fun _ => hsize
  have h₂ : (l.takenOut slot c).Sound := h₁.addCell fun d hd => by
    obtain rfl := Option.some.inj hd
    exact Nat.lt_trans hc hsize
  have hk : l.cells.size < (l.takenOut slot c).cells.size := by
    show _ < (l.cells.add _).size
    rw [Table.size_add]
    exact Nat.lt_succ_self _
  refine (h₂.withHandle hk).withHandle ?_
  show _ < ((l.takenOut slot c).cells.modify _ _).size
  rw [Table.size_modify]
  exact hk

/-! ### The contract -/

/-- The contract of a tag call, from the world `w` to the world `w'`.  The number of the slot's
context was `c`; `written` is that context with the writes of the tag, and `ended` the world when
it was asked back. -/
structure HandedBack (clone : Clone) (slot c : Nat) (written : Context Value)
    (w ended w' : World) : Prop where
  sound : w'.loans.Sound
  occupied : (w'.loans.slotAt slot).vacant = false
  /-- It is not the empty context that held the place meanwhile. -/
  real : (w'.loans.slotAt slot).context ≠ w.loans.contexts.size
  names : (w'.contextIn slot).inward.map (·.keys) = written.inward.map (·.keys)
  lent : w'.loans.contextAt c = written
  unique : ended.loans.live w.loans.cells.size = {w.loans.handles.size} →
    (w'.loans.slotAt slot).context = c
  copied : ended.loans.live w.loans.cells.size ≠ {w.loans.handles.size} →
    match ((written.copyWith clone recordSharing).exec ⟨ended.heap, [], [], []⟩).1 with
    | .ok copy => (w'.loans.slotAt slot).context ≠ c ∧ w'.contextIn slot = copy
    | .error _ => (w'.loans.slotAt slot).context = c

theorem HandedBack.of_refill {clone : Clone} {slot : Nat} {w ended w' : World} {l : Loans Value}
    (r : Refill clone w.loans.handles.size w.loans.cells.size c slot ended l) (s : l.Sound)
    {lent : Nat} {cut : Bool} (hl : w'.loans = l.letGoOf w.loans.handles.size lent cut)
    (hc : c < w.loans.contexts.size) (hplace : ended.loans.contexts.size = w.loans.contexts.size + 1)
    {r₀ : Slot} (hrow : ended.loans.slots.get? slot = some r₀) :
    HandedBack clone slot c (ended.loans.contextAt c) w ended w' := by
  obtain ⟨x, ex, hx⟩ := r.slot_row hrow
  have hslot : w'.loans.slotAt slot = ⟨x, false⟩ := by
    refine Loans.slotAt_eq ?_
    rw [hl, Loans.slots_letGoOf, ex]
  have hcontexts : w'.loans.contexts = l.contexts := by rw [hl, Loans.contexts_letGoOf]
  have hlent : w'.loans.contextAt c = ended.loans.contextAt c := by
    rw [← r.contextAt_lent (by omega), Loans.contextAt, hcontexts, Loans.contextAt]
  have hin : w'.contextIn slot = l.contextAt x := by
    rw [World.contextIn, hslot, Loans.contextAt, hcontexts, Loans.contextAt]
  have hold : w'.loans.contextAt c = l.contextAt c := by
    rw [Loans.contextAt, hcontexts, Loans.contextAt]
  refine ⟨by rw [hl]; exact s.letGoOf _ lent cut, by rw [hslot], ?real, ?names, hlent,
    fun alone => ?unique, fun shared => ?copied⟩
  all_goals rcases hx with ⟨alone', rfl⟩ | ⟨shared', r, t, e, ⟨f, rfl, rfl⟩ | ⟨copy, rfl, rfl, hcopy⟩⟩
  case real.inl | real.inr.inl =>
    rw [hslot]
    exact Nat.ne_of_lt hc
  case real.inr.inr =>
    rw [hslot, hplace]
    exact Nat.succ_ne_self _
  case names.inl | names.inr.inl => rw [hin, ← hold, hlent]
  case names.inr.inr => rw [hin, hcopy, Context.copyWith_names e]
  case unique.inl | unique.inr.inl => rw [hslot]
  case unique.inr.inr => exact absurd alone shared'
  case copied.inl => exact absurd alone' shared
  case copied.inr.inl => rw [e, hslot]
  case copied.inr.inr =>
    rw [e, hslot, hplace]
    exact ⟨(Nat.lt_succ_of_lt hc).ne', hin.trans hcopy⟩

theorem lend_handsBack {w : World} (sound : w.loans.Sound) {slot : Nat}
    (hslot : w.loans.slots.get? slot = some ⟨c, false⟩) (name : String) (clone : Clone)
    (d : Conduct) :
    let own := w.loans.handles.size
    let begun := w.startOfCall slot c
    let ended := begun.endOfCall name (own + 1) (d.run [own + 1])
    HandedBack clone slot c ((w.loans.contextAt c).writeAll (d.writes [own + 1] begun)) w ended
      ((lend name slot clone fun lent => d.run [lent]).exec w).2 := by
  intro own begun ended
  have hc : c < w.loans.contexts.size := sound.slot_lt slot _ hslot
  have hat : (w.loans.slotAt slot).context = c := by rw [Loans.slotAt_eq hslot]
  have a : AtWork own w.loans.cells.size c [own + 1] begun.loans := AtWork.lentOut sound slot hc
  obtain ⟨a', hbeside, hwritten⟩ := d.endOfCall_worked name a
  have hsound : ended.loans.Sound := hbeside.sound a' (sound.lentOut slot hc)
  have hplace : ended.loans.contexts.size = w.loans.contexts.size + 1 :=
    hbeside.contexts_size.trans (Table.size_add ..)
  have hbefore : begun.loans.contextAt c = w.loans.contextAt c := by
    show ((w.loans.contexts.add .empty).get? c).getD .empty = _
    rw [Table.get?_add_of_lt _ hc]
    rfl
  rw [hbefore] at hwritten
  have hrow : ended.loans.slots.get? slot = some ⟨w.loans.contexts.size, true⟩ := by
    rw [hbeside.slots]
    exact Table.get?_modify_self _ hslot
  have r := getBack_refills a' name slot clone
  have hloans : ((lend name slot clone fun lent => d.run [lent]).exec w).2.loans = _ :=
    congrArg (·.2.loans) (exec_lend name slot clone (fun lent => d.run [lent]) w)
  rw [hat] at hloans
  exact hwritten ▸ .of_refill r (r.sound hsound a'.context_lt) hloans hc hplace hrow

/-- When nobody else has a handle at the end, no value is cloned. -/
theorem lend_unique {w : World} (sound : w.loans.Sound) {slot : Nat}
    (hslot : w.loans.slots.get? slot = some ⟨c, false⟩) (name : String) (d : Conduct) :
    let own := w.loans.handles.size
    let ended := (w.startOfCall slot c).endOfCall name (own + 1) (d.run [own + 1])
    ended.loans.live w.loans.cells.size = {own} → ∀ clone other : Clone,
      (lend name slot clone fun lent => d.run [lent]).exec w =
        (lend name slot other fun lent => d.run [lent]).exec w := by
  intro own ended alone clone other
  have hc : c < w.loans.contexts.size := sound.slot_lt slot _ hslot
  have hat : (w.loans.slotAt slot).context = c := by rw [Loans.slotAt_eq hslot]
  have a : AtWork own w.loans.cells.size c [own + 1] (w.startOfCall slot c).loans :=
    AtWork.lentOut sound slot hc
  obtain ⟨a', -⟩ := d.endOfCall_worked name a
  have hback : (getBack name slot own clone).exec ended = (getBack name slot own other).exec ended := by
    rw [getBack, Run.exec_bind_ok (a'.exec_restore_unique alone slot clone), getBack,
      Run.exec_bind_ok (a'.exec_restore_unique alone slot other)]
  rw [exec_lend, exec_lend, hat]
  exact congrArg (endCall own (own + 1) _) hback

/-- The world with one tag call more under way. -/
def World.inCall (w : World) : World :=
  w.changeRendering fun r => { r with tagDepth := r.tagDepth + 1 }

/-- A call of a context tag lends the context; the depth of calls is as before. -/
theorem exec_renderTag {t : TagDefinition} (ht : t.mode = .context) (slot : Nat) (clone : Clone)
    (call : List Action → Option Nat → Run World Value) (w : World) :
    (renderTag (.tag t) slot clone call).exec w =
      let r := (lend t.name slot clone fun lent => call t.body (some lent)).exec w.inCall
      (do let v ← Run.resume r.1; foldResult v).exec
        (r.2.changeRendering fun r => { r with tagDepth := r.tagDepth - 1 }) := by
  rw [renderTag, deeper, Run.exec_modify_bind, ← World.inCall]
  dsimp only
  rw [ht]
  rfl

theorem exec_renderTag_rest {t : TagDefinition} (ht : t.mode = .context) (slot : Nat)
    (clone : Clone) (call : List Action → Option Nat → Run World Value) (w : World) :
    ((renderTag (.tag t) slot clone call).exec w).2 =
      ((lend t.name slot clone fun lent => call t.body (some lent)).exec w.inCall).2.changeRendering
        fun r => { r with tagDepth := r.tagDepth - 1 } := by
  rw [exec_renderTag ht]
  dsimp only
  rw [Run.exec_bind, Run.exec_resume]
  rcases ((lend t.name slot clone fun lent => call t.body (some lent)).exec w.inCall).1 with e | v
  · rfl
  · dsimp only
    rw [foldResult, Run.exec_get_bind, Run.exec_ofExcept]

/-- A context tag hands back the context that it was lent, whatever it does.  When it leaves no
handle to anybody, it is the very same context, and the render is the same for every function that
copies values. -/
theorem renderTag_handsBack {w : World} (sound : w.loans.Sound) {slot : Nat}
    (hslot : w.loans.slots.get? slot = some ⟨c, false⟩) {t : TagDefinition}
    (ht : t.mode = .context) (clone : Clone) (d : Conduct) :
    let own := w.loans.handles.size
    let begun := w.inCall.startOfCall slot c
    let ended := begun.endOfCall t.name (own + 1) (d.run [own + 1])
    let written := (w.loans.contextAt c).writeAll (d.writes [own + 1] begun)
    let call := fun (_ : List Action) (lent : Option Nat) => d.run lent.toList
    HandedBack clone slot c written w ended ((renderTag (.tag t) slot clone call).exec w).2 ∧
      (ended.loans.live w.loans.cells.size = {own} → ∀ other : Clone,
        (renderTag (.tag t) slot clone call).exec w =
          (renderTag (.tag t) slot other call).exec w) := by
  intro own begun ended written call
  have h : HandedBack clone slot c written w.inCall ended _ :=
    lend_handsBack (w := w.inCall) sound hslot t.name clone d
  refine ⟨?_, fun alone other => ?_⟩
  · rw [exec_renderTag_rest ht]
    exact ⟨h.sound, h.occupied, h.real, h.names, h.lent, h.unique, h.copied⟩
  · have hsame := lend_unique (w := w.inCall) sound hslot t.name d alone clone other
    rw [exec_renderTag ht, exec_renderTag ht]
    exact congrArg (fun r : Except Stop Value × World =>
      (do let v ← Run.resume r.1; foldResult v).exec
        (r.2.changeRendering fun r => { r with tagDepth := r.tagDepth - 1 })) hsame

/-- The world with one context in one slot, and nothing lent. -/
def World.ofContext (x : Context Value) : World :=
  { World.empty with loans := ⟨Table.empty.add x, Table.empty.add ⟨0, false⟩, .empty, .empty⟩ }

theorem World.sound_ofContext (x : Context Value) : (World.ofContext x).loans.Sound where
  slot_lt s r e := by
    have e' : (Table.empty.add ⟨0, false⟩).get? s = some r := e
    rw [Table.get?_add] at e'
    split at e'
    · obtain rfl := Option.some.inj e'
      exact Nat.one_pos
    · cases e'
  cell_lt _ _ _ e := nomatch e
  handle_lt _ _ e := nomatch e

/-- A tag that binds a name and makes a further handle, which it leaves behind: the slot gets a
copy, made after the write. -/
theorem renderTag_handsBack_left_behind :
    let w := World.ofContext (.ofBase (.ofNamed [("x", .int 1)]))
    let d := Conduct.access 0 (.set "y" (.int 2)) fun _ =>
      .duplicate 0 fun _ => .finish (.ok .absent)
    let begun := w.inCall.startOfCall 0 0
    let after := ((renderTag (.tag ⟨"t", [], .context⟩) 0 CloneRule.deep.apply
      fun _ lent => d.run lent.toList).exec w).2
    HandedBack CloneRule.deep.apply 0 0 ((w.loans.contextAt 0).writeAll (d.writes [1] begun)) w
        (begun.endOfCall "t" 1 (d.run [1])) after ∧
      d.writes [1] begun = [("y", .int 2)] ∧ (after.loans.slotAt 0).context = 2 := by
  intro w d begun after
  have hslot : w.loans.slots.get? 0 = some ⟨0, false⟩ := rfl
  have ht : (⟨"t", [], .context⟩ : TagDefinition).mode = .context := rfl
  have h := renderTag_handsBack (World.sound_ofContext _) hslot ht CloneRule.deep.apply d
  exact ⟨h.1, by decide +kernel, by decide +kernel⟩

end Stencil
