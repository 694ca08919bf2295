/-
Stencil/Proofs/Render/Unreached.lean

Writes through kept handles do not reach a render.  Two renders are compared
whose tags do the same, but that one leaves out what the other writes through
handles that were kept before the call.  Both give the same text or the same
fault, and the context in the slot is the same in the end
(`renderSlot_unreached`).

When a call is over, either the cell of the call is empty, or the slot holds a
new context; in both cases no kept handle reaches the context of the slot, and
so it is again when the next tag is called.
-/
import Stencil.Proofs.Render.LeftOut

namespace Stencil

variable {α : Type} {host : Host} {clone : Clone} {slot own lent k c : Nat} {w w' v v' : World}
  {l m : Loans Value}

/-! ### Lending -/

theorem Loans.Sound.cell_handleAt_lt (s : l.Sound) {h : Nat} (hh : h < l.handles.size) :
    (l.handleAt h).cell < l.cells.size := by
  obtain ⟨r, e⟩ := Table.exists_get? hh
  rw [Loans.handleAt_eq e]
  exact s.handle_lt h r e

/-- Handles on older cells. -/
theorem Loans.map_onCell_of_lt {hs : List Nat} (h : ∀ i ∈ hs, (l.handleAt i).cell < k) :
    hs.map (l.onCell k) = List.replicate hs.length false := by
  rw [List.map_eq_replicate_iff]
  exact fun i hi => decide_eq_false (Nat.ne_of_lt (h i hi))

/-- When the context `c` of a slot is lent, the tag reaches a handle on the new cell, and the kept
ones on older cells. -/
theorem InReach.lentOut {kept : List Nat} (s : l.Sound) (slot : Nat) (hc : c < l.contexts.size)
    (there : ∀ h ∈ kept, h < l.handles.size)
    (apart : ∀ h ∈ kept, (l.cellOf h).locked = false ∧ (l.cellOf h).context ≠ some c) :
    InReach l.cells.size c ([l.handles.size + 1] ++ kept) (l.lentOut slot c) ∧
      [l.handles.size + 1].map ((l.lentOut slot c).onCell l.cells.size) = [true] ∧
      kept.map ((l.lentOut slot c).onCell l.cells.size) = List.replicate kept.length false := by
  have hnew : (l.takenOut slot c).cellAt l.cells.size = ⟨some c, 0, false, false⟩ :=
    Loans.cellAt_eq (Table.get?_add_new ..)
  have hold : ∀ h ∈ kept, (l.handleAt h).cell < l.cells.size :=
    fun h hh => s.cell_handleAt_lt (there h hh)
  have hkept : InReach l.cells.size c kept (l.takenOut slot c) := by
    refine ⟨by rw [hnew], fun d hd => ?_, there, fun h hh _ => ?_⟩
    · rw [hnew] at hd
      exact (Option.some.inj hd).symm
    · have hcell : (l.takenOut slot c).cellOf h = l.cellOf h :=
        congrArg (·.getD ⟨none, 0, false, false⟩) (Table.get?_add_of_lt _ (hold h hh))
      rw [hcell]
      exact apart h hh
  have hsteady : Steady (l.takenOut slot c) (l.lentOut slot c) :=
    (Steady.withHandle _ _).trans (Steady.withHandle _ _)
  have hreach := hkept.steady hsteady
  obtain ⟨-, r, e, hr⟩ := (AtWork.lentOut s slot hc).mine_row _ (List.mem_singleton_self _)
  have hlent : ((l.lentOut slot c).handleAt (l.handles.size + 1)).cell = l.cells.size := by
    rw [Loans.handleAt_eq e, hr]
  refine ⟨⟨hreach.free, hreach.only, fun h hh => ?_, fun h hh hne => ?_⟩, ?_, ?_⟩
  · rcases List.mem_cons.mp hh with rfl | hh
    · exact Table.lt_size e
    · exact hreach.there h hh
  · rcases List.mem_cons.mp hh with rfl | hh
    · exact absurd hlent hne
    · exact hreach.others h hh hne
  · exact congrArg (fun b => [b]) (decide_eq_true hlent)
  · exact Loans.map_onCell_of_lt fun h hh => hsteady.cell h (there h hh) ▸ hold h hh

theorem Loans.withContexts_lentOut {x : Table (Context Value)} (size : x.size = l.contexts.size) :
    (l.withContexts x).lentOut slot c = (l.lentOut slot c).withContexts (x.add .empty) := by
  have h : (l.withContexts x).takenOut slot c = (l.takenOut slot c).withContexts (x.add .empty) := by
    rw [takenOut, taken, takenOut, taken, ← size]
    rfl
  rw [lentOut, h]
  rfl

/-! ### The end of a call -/

/-- A change of handles and cells. -/
theorem Alike.handles {F : Loans Value → Loans Value} (a : Alike c w v)
    (hF : ∀ x l, F (l.withContexts x) = (F l).withContexts x)
    (hc : ∀ l, (F l).contexts = l.contexts) :
    Alike c { w with loans := F w.loans } { v with loans := F v.loans } := by
  obtain ⟨x, size, same⟩ := a
  have hv : { w.withContexts x with loans := F (w.withContexts x).loans } =
      World.withContexts x { w with loans := F w.loans } := by
    rw [World.withContexts, hF]
    rfl
  rw [hv]
  refine .contexts x ?_ ?_
  · rw [hc]
    exact size
  · rw [hc]
    exact same

namespace Together

/-- The tag gives its handle back. -/
theorem giveBack {act act' : Run World Value} (h : Together k c w (act.exec w) (act'.exec v))
    (lent : Nat) :
    Together k c w ((giveBack lent act).exec w) ((giveBack lent act').exec v) := by
  rw [exec_giveBack, exec_giveBack, h.result]
  by_cases hcut : cutShort (act.exec w).1 = true
  · rw [if_pos hcut, if_pos hcut]
    exact ⟨rfl, h.alike, h.sound, h.reach, h.steady⟩
  · rw [if_neg hcut, if_neg hcut]
    have hs := Steady.withLetGo (act.exec w).2.loans lent
    exact ⟨rfl, h.alike.handles (Loans.withContexts_withLetGo · · lent)
      (Loans.contexts_withLetGo · lent), h.sound.withLetGo lent, h.reach.steady hs,
      h.steady.trans hs⟩

/-- Its fault is reported. -/
theorem callTag {act act' : Run World Value} (h : Together k c w (act.exec w) (act'.exec v))
    (name : String) :
    Together k c w ((callTag name act).exec w) ((callTag name act').exec v) := by
  rw [Stencil.callTag, Stencil.callTag, Run.exec_catching, Run.exec_catching]
  generalize act.exec w = ended, act'.exec v = ended' at h ⊢
  obtain ⟨r, u⟩ := ended
  obtain ⟨r', u'⟩ := ended'
  obtain rfl : r' = r := h.result
  obtain ⟨x, size, same⟩ : Alike c u u' := h.alike
  rcases r' with (f | -) | a
  · dsimp only
    split
    · split
      · exact h
      · exact ⟨rfl, .contexts x size same, h.sound, h.reach, h.steady⟩
    · exact h
  · exact h
  · exact h

end Together

/-! ### Getting back -/

theorem AtWork.withContexts {mine : List Nat} (a : AtWork own k c mine l)
    {x : Table (Context Value)} (size : x.size = l.contexts.size) :
    AtWork own k c mine (l.withContexts x) :=
  { a with
    counted := a.counted
    context_lt := size ▸ a.context_lt }

/-- Counts and contexts are apart. -/
theorem Alike.changeTally {x y : Table (Context Value)} (f : Tally → Tally)
    (size : y.size = m.contexts.size) (same : y.get? c = m.contexts.get? c) :
    Alike c { w.changeTally f with loans := m }
      { (w.withContexts x).changeTally f with loans := m.withContexts y } := by
  have e : (w.withContexts x).changeTally f = { w.changeTally f with loans := w.loans.withContexts x } :=
    World.changeTally_loans ..
  rw [e]
  exact .contexts y size same

/-- How the context is got back in two worlds: in the same way, and unless that fails, no kept handle
reaches the context that the slot holds then. -/
structure Regained (slot : Nat) {α : Type} (b b' : Except Stop α × World) : Prop where
  result : b'.1 = b.1
  alike : Alike (b.2.loans.slotAt slot).context b.2 b'.2
  parted : ∀ a, b.1 = .ok a → b.2.Parted slot

/-- The slot holds the context `d`: the lent one again, while the cell of the loan is empty, or one
that is in no cell. -/
theorem Regained.of_slot {x y : Table (Context Value)} {u : World} {q : Slot} {d : Nat}
    (path : ReclaimPath) (i : InReach k c w.kept w.loans) (hk : u.kept = w.kept)
    (s : Steady w.loans m) (hq : m.slots.get? slot = some q)
    (size : y.size = m.contexts.size) (same : y.get? d = m.contexts.get? d)
    (hcell : ∀ j, (m.cellAt j).context = some d → j ≠ k ∧ d = c) :
    Regained slot
      (.ok path, { u.changeTally (·.record path) with
        loans := m.changeSlot slot fun _ => ⟨d, false⟩ })
      (.ok path, { (u.withContexts x).changeTally (·.record path) with
        loans := (m.withContexts y).changeSlot slot fun _ => ⟨d, false⟩ }) := by
  have hslot : ((m.changeSlot slot fun _ => ⟨d, false⟩).slotAt slot).context = d := by
    rw [Loans.slotAt_eq (Table.get?_modify_self _ hq)]
  have hs : Steady w.loans (m.changeSlot slot fun _ => ⟨d, false⟩) :=
    s.trans (.of_tables rfl rfl)
  refine ⟨rfl, ?_, fun _ _ h hh => ?_⟩
  · show Alike ((m.changeSlot slot fun _ => ⟨d, false⟩).slotAt slot).context _ _
    rw [hslot]
    exact .changeTally (m := m.changeSlot slot fun _ => ⟨d, false⟩) _ size same
  · have hkept : h ∈ w.kept := hk ▸ World.kept_changeTally (·.record path) u ▸ hh
    refine ⟨(i.steady hs).cellOf_free hkept, fun e => ?_⟩
    have e' : (m.cellOf h).context = some d := hslot ▸ e
    obtain ⟨hne, rfl⟩ := hcell _ e'
    exact ((i.steady s).others h hkept hne).2 e'

section Restore

variable (a : AtWork own k c [] w.loans) (al : Alike c w v) (i : InReach k c w.kept w.loans)
  {q : Slot} (hq : w.loans.slots.get? slot = some q) (clone : Clone)
include a al i hq

/-- The very context comes back: its cell is empty. -/
theorem AtWork.regained_unique (alone : w.loans.live k = {own}) :
    Regained slot ((restore slot own clone).exec w) ((restore slot own clone).exec v) := by
  obtain ⟨x, size, same⟩ := al
  obtain ⟨n, ek⟩ := a.cell_row
  have a' : AtWork own k c [] (w.withContexts x).loans := a.withContexts size
  have hdetached : Steady w.loans (w.loans.detached k) :=
    .changeCell _ k (fun _ _ e => nomatch e) fun _ e => e
  have hreleased : Steady (w.loans.detached k) ((w.loans.detached k).withRelease own) :=
    .withRelease _ own
  have hcontexts : ((w.loans.detached k).withRelease own).contexts = w.loans.contexts :=
    Loans.contexts_withRelease ..
  have hempty : (w.loans.detached k).cellAt k = ⟨none, n, true, false⟩ :=
    Loans.cellAt_eq (Table.get?_modify_self _ ek)
  have hback : (w.withContexts x).loans.backUnique own k slot c = Loans.changeSlot slot
      (fun _ => ⟨c, false⟩) (((w.loans.detached k).withRelease own).withContexts x) :=
    congrArg (Loans.changeSlot slot fun _ => ⟨c, false⟩)
      (Loans.withContexts_withRelease x (w.loans.detached k) own)
  rw [a.exec_restore_unique alone slot clone, a'.exec_restore_unique alone slot clone, hback]
  refine .of_slot .unique i rfl (hdetached.trans hreleased) (q := q) ?_ ?_ ?_ fun j e => ⟨?_, rfl⟩
  · rw [Loans.slots_withRelease]
    exact hq
  · rw [hcontexts, size]
  · rw [hcontexts, same]
  · rintro rfl
    have h := hreleased.context j c e
    rw [hempty] at h
    cases h

/-- A copy comes, and no cell holds it. -/
theorem AtWork.regained_copied (s : w.loans.Sound) (shared : w.loans.live k ≠ {own})
    {copy : Context Value} {t : Copying}
    (e : ((w.loans.contextAt c).copyWith clone recordSharing).exec ⟨w.heap, [], [], []⟩
      = (.ok copy, t)) :
    Regained slot ((restore slot own clone).exec w) ((restore slot own clone).exec v) := by
  obtain ⟨x, size, same⟩ := al
  have a' : AtWork own k c [] (w.withContexts x).loans := a.withContexts size
  have hcontext : (w.withContexts x).loans.contextAt c = w.loans.contextAt c :=
    congrArg (·.getD .empty) same
  let copied : Loans Value := { w.loans with contexts := w.loans.contexts.add copy }
  have hcopied : Steady w.loans copied := .of_tables rfl rfl
  have hcontexts : (copied.withRelease own).contexts = w.loans.contexts.add copy :=
    Loans.contexts_withRelease ..
  have hback : (w.withContexts x).copiedBack own k copy t =
      (w.copiedBack own k copy t).withContexts (x.add copy) :=
    congrArg (fun m : Loans Value => { w.copiedBack own k copy t with loans := m })
      (Loans.withContexts_withRelease (x.add copy) copied own)
  rw [a.exec_restore_copied shared slot e, a'.exec_restore_copied shared slot (hcontext ▸ e),
    hback, show (w.withContexts x).loans.contexts.size = w.loans.contexts.size from size]
  refine .of_slot (m := copied.withRelease own) .deepCopy i rfl
    (hcopied.trans (.withRelease copied own)) (q := q) ?_ ?_ ?_ fun j ej => ?_
  · rw [Loans.slots_withRelease]
    exact hq
  · rw [hcontexts, Table.size_add, Table.size_add, size]
  · rw [hcontexts, Table.get?_add_new, ← size, Table.get?_add_new]
  · have hold := (hcopied.trans (.withRelease copied own)).context j _ ej
    rcases er : w.loans.cells.get? j with - | r
    · rw [Loans.cellAt, er] at hold
      cases hold
    · rw [Loans.cellAt_eq er] at hold
      exact absurd (s.cell_lt j r _ er hold) (Nat.lt_irrefl _)

theorem AtWork.regained (s : w.loans.Sound) :
    Regained slot ((restore slot own clone).exec w) ((restore slot own clone).exec v) := by
  by_cases alone : w.loans.live k = {own}
  · exact a.regained_unique al i hq clone alone
  · rcases e : ((w.loans.contextAt c).copyWith clone recordSharing).exec ⟨w.heap, [], [], []⟩
      with ⟨f | copy, t⟩
    · obtain ⟨x, size, same⟩ := al
      have a' : AtWork own k c [] (w.withContexts x).loans := a.withContexts size
      have hcontext : (w.withContexts x).loans.contextAt c = w.loans.contextAt c :=
        congrArg (·.getD .empty) same
      have hslot : ((w.loans.changeSlot slot fun _ => ⟨c, false⟩).slotAt slot).context = c := by
        rw [Loans.slotAt_eq (Table.get?_modify_self _ hq)]
      rw [a.exec_restore_stopped alone slot e,
        a'.exec_restore_stopped alone slot (hcontext ▸ e)]
      refine ⟨rfl, ?_, nofun⟩
      show Alike ((w.loans.changeSlot slot fun _ => ⟨c, false⟩).slotAt slot).context _ _
      rw [hslot]
      exact .contexts x size same
    · exact a.regained_copied al i hq clone s alone e

end Restore

/-- A record is written of it. -/
theorem Regained.getBack (h : Regained slot ((restore slot own clone).exec w)
    ((restore slot own clone).exec v)) (name : String) :
    Regained slot ((getBack name slot own clone).exec w)
      ((getBack name slot own clone).exec v) := by
  rw [Stencil.getBack, Run.exec_bind, Run.exec_bind]
  generalize (restore slot own clone).exec w = b, (restore slot own clone).exec v = b' at h ⊢
  obtain ⟨r, u⟩ := b
  obtain ⟨r', u'⟩ := b'
  obtain rfl : r' = r := h.result
  obtain ⟨x, size, same⟩ : Alike (u.loans.slotAt slot).context u u' := h.alike
  rcases r' with e | path
  · refine ⟨rfl, .contexts x size same, fun _ hr => ?_⟩
    cases hr
  · exact ⟨rfl, .contexts x size same, fun _ _ => h.parted path rfl⟩

/-- The handles are let go of. -/
theorem Regained.endCall {b b' : Except Stop Unit × World} (h : Regained slot b b')
    (hkept : ∀ i ∈ b.2.kept, i < b.2.loans.handles.size) (own lent : Nat)
    (result : Except Stop Value) :
    Regained slot (endCall own lent result b) (endCall own lent result b') := by
  have hs := Steady.letGoOf b.2.loans own lent (cutShort result)
  have hslot : ∀ l : Loans Value, (l.letGoOf own lent (cutShort result)).slotAt slot
      = l.slotAt slot := by
    intro l
    rw [Loans.slotAt, Loans.slots_letGoOf, Loans.slotAt]
  refine ⟨?_, ?_, fun a ea i hi => ?_⟩
  · rw [Stencil.endCall, Stencil.endCall, h.result]
  · show Alike ((b.2.loans.letGoOf own lent (cutShort result)).slotAt slot).context _ _
    rw [hslot]
    exact h.alike.handles (Loans.withContexts_letGoOf · · own lent _)
      (Loans.contexts_letGoOf own lent _)
  · have hback : b.1 = .ok () := by
      rw [Stencil.endCall] at ea
      rcases hb : b.1 with e | u
      · rw [hb] at ea
        cases ea
      · rfl
    obtain ⟨hfree, hne⟩ := h.parted () hback i hi
    have hcell := hs.cell i (hkept i hi)
    show ((b.2.loans.letGoOf own lent (cutShort result)).cellOf i).locked = false ∧
      ((b.2.loans.letGoOf own lent (cutShort result)).cellOf i).context ≠
        some ((b.2.loans.letGoOf own lent (cutShort result)).slotAt slot).context
    rw [Loans.cellOf, hcell, hslot]
    exact ⟨hs.free _ hfree, fun e => hne (hs.context _ _ e)⟩

theorem Regained.agree {act act' : Run World α} {b b' : Except Stop α × World}
    (h : Regained slot b b') (e : act.exec w = b) (e' : act'.exec v = b')
    (fit : (act.exec w).2.Fit slot) : Agree slot w v act act' := by
  subst e e'
  exact ⟨h.result, ⟨fit, h.alike⟩, fun a w' e => by
    have hp := h.parted a
    rw [e] at hp
    exact hp rfl⟩

/-! ### Calls -/

/-- The host whose tags run errands, which may depend on how many handles are kept when a tag is
called. -/
def Host.employs (host : Host)
    (tags : Nat → List Action → List Value → Bindings String Value → Errand) : Host :=
  { host with
    call := fun body lent vs ns => do
      let w ← get
      (tags w.kept.length body vs ns).run lent.toList }

theorem Host.exec_employs (host : Host)
    (tags : Nat → List Action → List Value → Bindings String Value → Errand) (body : List Action)
    (lent : Option Nat) (vs : List Value) (ns : Bindings String Value) (w : World) :
    ((host.employs tags).call body lent vs ns).exec w
      = ((tags w.kept.length body vs ns).run lent.toList).exec w := rfl

/-- What these tags write. -/
def employedWrites (tags : Nat → List Action → List Value → Bindings String Value → Errand)
    (body : List Action) (lent : Option Nat) (vs : List Value) (ns : Bindings String Value)
    (w : World) (c : Nat) : List Write := (tags w.kept.length body vs ns).writes c lent.toList w

theorem Host.tame_employs (host : Host)
    (tags : Nat → List Action → List Value → Bindings String Value → Errand) :
    (host.employs tags).Tame (employedWrites tags) :=
  fun body _ vs ns w s =>
    (tags w.kept.length body vs ns).run_tame s (Nat.le_refl _) fun _ hh => .inl hh

/-- The tags of two hosts do the same, but that one leaves out what the other writes through handles
that were kept before a call. -/
def LeaveOut (tags tags' : Nat → List Action → List Value → Bindings String Value → Errand) :
    Prop :=
  ∀ n body vs ns (lent : Option Nat), Errand.LeftOut (lent.toList.map fun _ => true)
    (List.replicate n false) (tags n body vs ns) (tags' n body vs ns)

variable {tags tags' : Nat → List Action → List Value → Bindings String Value → Errand}
  {body : List Action} {vals : List Value} {named : Bindings String Value}

/-- A tag that is lent nothing.  There is no cell of the call. -/
theorem agree_callTag (q : LeaveOut tags tags') (t : Twins slot w v) (p : w.Parted slot)
    (name : String) :
    Agree slot w v (callTag name ((host.employs tags).call body none vals named))
      (callTag name ((host.employs tags').call body none vals named)) := by
  let c := (w.loans.slotAt slot).context
  let k := w.loans.cells.size
  have hnone : w.loans.cellAt k = ⟨none, 0, false, false⟩ := by
    rw [Loans.cellAt, Table.get?_eq_none (Nat.le_refl _)]
    rfl
  have hreach : InReach k c ([] ++ w.kept) w.loans := by
    refine ⟨by rw [hnone], fun d hd => ?_, t.fit.kept, fun h hh _ => p h hh⟩
    rw [hnone] at hd
    cases hd
  have hsides : w.kept.map (w.loans.onCell k) = List.replicate w.kept.length false :=
    Loans.map_onCell_of_lt fun h hh => t.fit.sound.cell_handleAt_lt (t.fit.kept h hh)
  have hpaired : Paired k c [] (List.replicate w.kept.length false) [] w v :=
    ⟨t.alike, t.fit.sound, hreach, rfl, hsides⟩
  have hcall : Together k c w (((host.employs tags).call body none vals named).exec w)
      (((host.employs tags').call body none vals named).exec v) := by
    rw [Host.exec_employs, Host.exec_employs, t.alike.kept]
    exact (q w.kept.length body vals named none).together hpaired
  have h := hcall.callTag name
  have hslot : ((((callTag name ((host.employs tags).call body none vals named)).exec w).2.loans.slotAt
      slot).context) = c := by
    obtain ⟨r, e⟩ := t.fit.slot_row
    have htame := host.tame_employs tags body none vals named w t.fit.sound
    rw [(callTag_loans ..).1, Loans.slotAt_eq (htame.slots slot r e), ← Loans.slotAt_eq e]
  have htends : Tends (fun _ => pure .absent) slot (employedWrites tags body none vals named w c) w
      ((callTag name ((host.employs tags).call body none vals named)).exec w).2 :=
    tends_callTag (host.tame_employs tags) t.fit name
  refine ⟨h.result, ⟨htends.fit, hslot ▸ h.alike⟩, fun a w' e i hi => ?_⟩
  rw [e] at h hslot
  refine ⟨h.reach.cellOf_free hi, fun hc => ?_⟩
  rw [hslot] at hc
  by_cases hk : (w'.loans.handleAt i).cell = k
  · rw [Loans.cellOf, hk] at hc
    have hold := h.steady.context k c hc
    rw [hnone] at hold
    cases hold
  · exact (h.reach.others i hi hk).2 hc

/-- A tag that is lent the context of the slot. -/
theorem agree_lend (q : LeaveOut tags tags') (t : Twins slot w v) (p : w.Parted slot)
    (name : String) (clone : Clone) :
    Agree slot w v
      (lend name slot clone fun lent => (host.employs tags).call body (some lent) vals named)
      (lend name slot clone fun lent => (host.employs tags').call body (some lent) vals named) := by
  let c := (w.loans.slotAt slot).context
  let k := w.loans.cells.size
  let lent := w.loans.handles.size + 1
  let begun := w.startOfCall slot c
  have hc : c < w.loans.contexts.size := t.fit.context_lt
  obtain ⟨r, hr⟩ := t.fit.slot_row
  obtain ⟨hreach, hmine, hsides⟩ := InReach.lentOut t.fit.sound slot hc t.fit.kept p
  have hkept : begun.kept = w.kept := World.kept_changeTally ..
  have halike : Alike c begun (v.startOfCall slot c) := by
    obtain ⟨x, size, same⟩ := t.alike
    rw [World.startOfCall, show (w.withContexts x).loans.lentOut slot c = _ from
      Loans.withContexts_lentOut size]
    refine .changeTally Tally.start ?_ ?_
    · show (x.add .empty).size = (w.loans.contexts.add .empty).size
      rw [Table.size_add, Table.size_add, size]
    · show (x.add .empty).get? c = (w.loans.contexts.add .empty).get? c
      rw [Table.get?_add_of_lt _ hc, Table.get?_add_of_lt _ (size ▸ hc), same]
  have hpaired : Paired k c [true] (List.replicate w.kept.length false) [lent] begun
      (v.startOfCall slot c) :=
    ⟨halike, t.fit.sound.lentOut slot hc, hkept ▸ hreach, hmine, hkept ▸ hsides⟩
  let called := (host.employs tags).call body (some lent) vals named
  let called' := (host.employs tags').call body (some lent) vals named
  have hcall : Together k c begun (called.exec begun) (called'.exec (v.startOfCall slot c)) := by
    rw [Host.exec_employs, Host.exec_employs, halike.kept, hkept]
    exact (q w.kept.length body vals named (some lent)).together hpaired
  have h := (hcall.giveBack lent).callTag name
  have d : Done slot _ w (begun.endOfCall name lent called) :=
    (done_call (host.tame_employs tags) t.fit).endOfCall name
  obtain ⟨r', hr'⟩ := d.slot_row
  have hback := (d.atWork.regained h.alike h.reach hr' clone h.sound).getBack name
  have hend := hback.endCall (fun i hi => ?_) w.loans.handles.size lent
    ((callTag name (giveBack lent called)).exec begun).1
  · refine hend.agree (exec_lend ..) ?_ (tends_lend (host.tame_employs tags) t.fit name).fit
    have hown : v.loans.handles.size = w.loans.handles.size := by
      obtain ⟨x, -, -⟩ := t.alike
      rfl
    have hslot : v.loans.slotAt slot = w.loans.slotAt slot := by
      obtain ⟨x, -, -⟩ := t.alike
      rfl
    rw [exec_lend, hown, hslot]
    exact congrArg (endCall w.loans.handles.size lent · _) h.result
  · rw [(getBack_refills d.atWork name slot clone).size_handles]
    rw [getBack_kept d.atWork] at hi
    exact d.kept i hi

/-- Calls of tags. -/
theorem agree_renderTag (q : LeaveOut tags tags') (t : Twins slot w v) (p : w.Parted slot)
    (entry : TagEntry) (clone : Clone) :
    Agree slot w v
      (renderTag entry slot clone fun body lent => (host.employs tags).call body lent vals named)
      (renderTag entry slot clone fun body lent => (host.employs tags').call body lent vals named) := by
  have hdeeper : Agree slot w v deeper deeper := by
    obtain ⟨x, -, -⟩ := t.alike
    exact .of_loans t p rfl rfl rfl rfl
  rw [renderTag.eq_def, renderTag.eq_def]
  refine .bind hdeeper fun _ w₁ v₁ t₁ p₁ => ?_
  have hshallower : ∀ u : World, shallower.exec u =
      (.ok (), u.changeRendering fun r => { r with tagDepth := r.tagDepth - 1 }) := fun _ => rfl
  refine .bind (.ensuring_step hshallower (fun _ => rfl) (fun _ => rfl) (fun _ _ => rfl) ?_)
    fun a w₂ v₂ t₂ p₂ => ?_
  · cases entry with
    | filter f => exact .fail t₁ _
    | tag d =>
      dsimp only
      split
      · exact agree_callTag q t₁ p₁ d.name
      · exact agree_lend q t₁ p₁ d.name clone
  · obtain ⟨x, -, -⟩ := t₂.alike
    exact .get_bind (.ofExcept t₂ p₂ _)

theorem LeaveOut.concurs (q : LeaveOut tags tags') (host : Host) (r : Renderer) :
    r.Concurs (host.employs tags) (host.employs tags') where
  filter := rfl
  growth := rfl
  calls entry _ _ _ _ t p := agree_renderTag q t p entry _

/-! ### Whole renders -/

/-- Writes through kept handles do not reach a render.  The tags may be any that get at contexts by
handles only; those of the second render leave out what those of the first do to contexts through
handles that were kept before a call, and do not heed.  Both renders end with the same text or the
same fault; the slot holds the same context in the end; and nothing else differs but contexts. -/
theorem renderSlot_unreached (host : Host)
    {tags tags' : Nat → List Action → List Value → Bindings String Value → Errand}
    (q : LeaveOut tags tags') (template : Nat) {slot : Nat} (fit : w.Fit slot) (parted : w.Parted slot) :
    let after := (renderSlot (host.employs tags) template slot).exec w
    let after' := (renderSlot (host.employs tags') template slot).exec w
    after'.1 = after.1 ∧ after'.2.contextIn slot = after.2.contextIn slot ∧
      after'.2 = after.2.withContexts after'.2.loans.contexts := by
  intro after after'
  have h := agree_renderSlot template (.refl fit) parted fun e => q.concurs host (e.renderer slot)
  exact ⟨h.result, h.twins.contextIn, h.twins.alike.eq_withContexts⟩

/-- Of two tags, the first keeps its handle; the second, which is told so by an argument, writes
through a handle that was kept before, if there is one. -/
def Errand.keepThenPoke (pokes : Bool) (vs : List Value) : Errand :=
  if vs.isEmpty then keep (.own 0) (finish (.ok .absent))
  else if pokes then
    touch (.kept 0) (.access (.set "x" (.int 99))) fun _ => finish (.ok .absent)
  else finish (.ok .absent)

/-- The second tag writes to what the first has kept; the render does not see it. -/
theorem renderSlot_unreached_poked :
    let tags := fun (_ : Nat) (_ : List Action) (vs : List Value) (_ : Bindings String Value) =>
      Errand.keepThenPoke true vs
    let tags' := fun (n : Nat) (_ : List Action) (vs : List Value) (_ : Bindings String Value) =>
      Errand.keepThenPoke (n = 0) vs
    let body : List (Node Value) :=
      [.call ⟨1, 0⟩ "k" [] [] none, .call ⟨1, 0⟩ "k" [.const ⟨1, 0⟩ (.int 1)] [] none,
        .output ⟨1, 0⟩ (.name ⟨1, 0⟩ "x")]
    let w := World.ofTemplate (Context.ofBase (.ofNamed [("x", .int 0)]))
      (.ofList [("k", .tag ⟨"k", [], .context⟩)]) body
    let after := (renderSlot (Host.plain.employs tags) 0 0).exec w
    let after' := (renderSlot (Host.plain.employs tags') 0 0).exec w
    LeaveOut tags tags' ∧ after.1 = .ok "0" ∧ after'.1 = after.1 ∧
      after'.2.contextIn 0 = after.2.contextIn 0 ∧
      (after.2.loans.contextAt 0).lookup? "x" = some (.int 99) ∧
      (after'.2.loans.contextAt 0).lookup? "x" = some (.int 0) := by
  intro tags tags' body w after after'
  have q : LeaveOut tags tags' := by
    intro n _ vs _ lent
    rcases vs with - | ⟨v, vs⟩
    · exact .keep (.finish _)
    · rcases n with - | n
      · exact .missing rfl (.finish _)
      · exact .skipped rfl rfl fun _ => .finish _
  have hfit : w.Fit 0 := World.fit_ofTemplate _ _ body
  have h := renderSlot_unreached Host.plain q 0 hfit fun _ hh => nomatch hh
  have htext : after.1 = .ok "0" := by decide +kernel
  have hkept : (after.2.loans.contextAt 0).lookup? "x" = some (.int 99) := by decide +kernel
  have hkept' : (after'.2.loans.contextAt 0).lookup? "x" = some (.int 0) := by decide +kernel
  exact ⟨q, htext, h.1, h.2.1, hkept, hkept'⟩

end Stencil
