/-
Stencil/Proofs/Render/Following.lean

Hosts whose tags follow recipes.  A call may also keep the handle it is lent;
then a copy of the context comes back to the slot, and else the context itself
(`Recipe.Back`).  Either way the call ends as the recipe says, and what it wrote
is in the context that comes back (`Recipe.exec_lend_call`).

A copy mirrors what it is a copy of.  So a call that keeps its handle echoes one
that does not (`Recipe.echoes_renderTag`), and hosts that differ only in the
calls that keep handles are in chorus (`Host.inChorus_follows`).
-/
import Stencil.Proofs.Render.Chorus

namespace Stencil

variable {slot own k c : Nat} {mine : List Nat} {w w' v v' : World} {ws : List Write}

/-! ### Live handles -/

namespace Loans

/-- At the beginning of a call the render and the tag have a handle each. -/
theorem live_lentOut {l : Loans Value} (s : l.Sound) (slot c : Nat) :
    (l.lentOut slot c).live l.cells.size = {l.handles.size + 1, l.handles.size} := by
  have hsize : ((l.takenOut slot c).withHandle l.cells.size).handles.size = l.handles.size + 1 :=
    Table.size_add ..
  have hnone : (l.takenOut slot c).live l.cells.size = ∅ := (live_congr rfl _).trans s.live_new
  rw [lentOut, live_withHandle, live_withHandle, hsize, hnone]
  rfl

theorem lent_row (slot c : Nat) (l : Loans Value) :
    (l.lentOut slot c).handles.get? (l.handles.size + 1) = some ⟨l.cells.size, false, 1⟩ := by
  have hnew := Table.get?_add_new (l.handles.add ⟨l.cells.size, false, 1⟩)
    (⟨l.cells.size, false, 1⟩ : Handle)
  rw [Table.size_add] at hnew
  exact hnew

/-- Who lets go of a handle that nobody else holds releases it. -/
theorem live_withLetGo {l : Loans Value} {h k n : Nat}
    (e : l.handles.get? h = some ⟨k, false, n + 1⟩) :
    (l.withLetGo h).live k = if n = 0 then (l.live k).erase h else l.live k := by
  have hrow : (changeHandle h (fun r => { r with holders := r.holders - 1 }) l).handleAt h
      = ⟨k, false, n⟩ := handleAt_eq (Table.get?_modify_self _ e)
  rw [withLetGo, hrow]
  dsimp only
  split
  · rw [live_withRelease, live_holders l h k (· - 1)]
  · rw [live_holders l h k (· - 1)]

end Loans

/-! ### Getting back -/

/-- Changes that count the same. -/
theorem World.counts_changeTally_eq {f f' : Tally → Tally} (step : Nat × Nat → Nat × Nat)
    (hf : ∀ t, (f t).counts = step t.counts) (hf' : ∀ t, (f' t).counts = step t.counts)
    (hr : w.renderings = v.renderings) (hc : w.counts = v.counts) :
    (w.changeTally f).counts = (v.changeTally f').counts := by
  rw [changeTally, changeTally, hr]
  split
  · exact hc
  · next r rest _ =>
    funext i
    have hi := congrFun hc i
    have hstep : Tally.counts ∘ f = step ∘ Tally.counts := funext hf
    have hstep' : Tally.counts ∘ f' = step ∘ Tally.counts := funext hf'
    rw [counts, counts] at hi ⊢
    rw [Table.get?_modify, Table.get?_modify]
    split
    · rw [Option.map_map, Option.map_map, hstep, hstep', ← Option.map_map, hi, Option.map_map]
    · exact hi

theorem World.counts_record_eq (path path' : ReclaimPath) (hr : w.renderings = v.renderings)
    (hc : w.counts = v.counts) :
    (w.changeTally (·.record path)).counts = (v.changeTally (·.record path')).counts :=
  counts_changeTally_eq (fun c => (c.1, c.2 + 1)) (Tally.counts_record · path)
    (Tally.counts_record · path') hr hc

theorem World.counts_start_eq (hr : w.renderings = v.renderings) (hc : w.counts = v.counts) :
    (w.changeTally Tally.start).counts = (v.changeTally Tally.start).counts :=
  counts_changeTally_eq (fun c => (c.1 + 1, c.2)) Tally.counts_start Tally.counts_start hr hc

/-- A hand-over and a way back are counted. -/
def World.counted (w : World) : World :=
  (w.changeTally Tally.start).changeTally (·.record .unique)

theorem World.renderings_counted (w : World) : w.counted.renderings = w.renderings := by
  rw [counted, renderings_changeTally, renderings_changeTally]

theorem World.counts_counted_eq (hr : w.renderings = v.renderings) (hc : w.counts = v.counts) :
    w.counted.counts = v.counted.counts := by
  refine counts_record_eq .unique .unique ?_ (counts_start_eq hr hc)
  rw [renderings_changeTally, renderings_changeTally, hr]

/-- What comes back from a cell, with the heap: the context itself, when nobody but the render has a
live handle, and else a copy. -/
inductive World.ComesBack (own k c : Nat) (w : World) : Heap → Context Value → Prop
  | itself (alone : w.loans.live k = {own}) : ComesBack own k c w w.heap (w.loans.contextAt c)
  | copy (shared : w.loans.live k ≠ {own}) {x : Context Value} {s : Copying}
      (e : ((w.loans.contextAt c).copyWith Copying.deepCopy recordSharing).exec ⟨w.heap, [], [], []⟩
        = (.ok x, s)) : ComesBack own k c w s.heap x

/-- A call left the slot with a context, and the counts as they are in the world `b`. -/
structure World.Left (slot : Nat) (b : World) (h : Heap) (x : Context Value) (w : World) :
    Prop where
  fit : w.Fit slot
  heap : w.heap = h
  context : w.contextIn slot = x
  renderings : w.renderings = b.renderings
  counts : w.counts = b.counts

theorem World.ComesBack.exec_getBack {h : Heap} {x : Context Value} (b : w.ComesBack own k c h x)
    (a : AtWork own k c mine w.loans) (name : String) {q : Slot}
    (e : w.loans.slots.get? slot = some q) :
    ∃ w', (getBack name slot own Copying.deepCopy).exec w = (.ok (), w') ∧ w'.heap = h ∧
      w'.contextIn slot = x ∧ w'.renderings = w.renderings ∧
      w'.counts = (w.changeTally (·.record .unique)).counts := by
  have r := getBack_refills a name slot Copying.deepCopy
  obtain ⟨d, ed, hd⟩ := r.slot_row e
  have hlent := r.contextAt_lent a.context_lt
  have hin : ∀ {y : Context Value} {w' : World}, w'.loans.slots.get? slot = some ⟨d, false⟩ →
      w'.loans.contextAt d = y → w'.contextIn slot = y := by
    intro y w' ed hy
    rw [contextIn, Loans.slotAt_eq ed, hy]
  cases b with
  | itself alone =>
    have hexec : (getBack name slot own Copying.deepCopy).exec w = _ :=
      Run.exec_bind_ok (a.exec_restore_unique alone slot Copying.deepCopy)
    rw [hexec] at ed hd hlent
    refine ⟨_, hexec, heap_changeTally .., hin ed ?_, renderings_changeTally .., rfl⟩
    obtain ⟨-, rfl⟩ | ⟨hne, -⟩ := hd
    · exact hlent
    · exact absurd alone hne
  | @copy shared x s ecopy =>
    have hexec : (getBack name slot own Copying.deepCopy).exec w = _ :=
      Run.exec_bind_ok (a.exec_restore_copied shared slot ecopy)
    rw [hexec] at ed hd
    refine ⟨_, hexec, heap_changeTally .., hin ed ?_, renderings_changeTally ..,
      counts_record_eq .deepCopy .unique rfl rfl⟩
    obtain ⟨alone, -⟩ | ⟨-, r, t, er, ⟨f, rfl, -⟩ | ⟨y, rfl, rfl, hy⟩⟩ := hd
    · exact absurd alone shared
    · cases ecopy.symm.trans er
    · obtain rfl := Except.ok.inj (congrArg Prod.fst (ecopy.symm.trans er))
      exact hy

/-- The second half of a call. -/
theorem Done.left_endCall {ended : World} {h : Heap} {x : Context Value} (d : Done slot ws w ended)
    (hr : ended.renderings = w.renderings)
    (hc : ended.counts = (w.changeTally Tally.start).counts)
    (b : ended.ComesBack w.loans.handles.size w.loans.cells.size (w.loans.slotAt slot).context h x)
    (name : String) (result : Except Stop Value) (lent : Nat) :
    let out := endCall w.loans.handles.size lent result
      ((getBack name slot w.loans.handles.size Copying.deepCopy).exec ended)
    out.1 = result ∧ w.counted.Left slot h x out.2 := by
  intro out
  obtain ⟨q, e⟩ := d.slot_row
  obtain ⟨w', ew, hheap, hcontext, hrenderings, hcounts⟩ := b.exec_getBack d.atWork name e
  have hfit : out.2.Fit slot := (d.tends_endCall name result lent).fit
  have hout : out = (result, { w' with
      loans := w'.loans.letGoOf w.loans.handles.size lent (cutShort result) }) := by
    show endCall _ _ _ _ = _
    rw [ew]
    rfl
  refine ⟨congrArg Prod.fst hout, hfit, ?_, ?_, ?_, ?_⟩
  · rw [hout, hheap]
  · rw [hout, World.contextIn, Loans.slotAt, Loans.slots_letGoOf, Loans.contextAt,
      Loans.contexts_letGoOf]
    exact hcontext
  · rw [hout, hrenderings, hr, World.renderings_counted]
  · rw [hout]
    refine hcounts.trans (World.counts_record_eq .unique .unique ?_ hc)
    rw [hr, World.renderings_changeTally]

/-! ### Reports -/

/-- How the end of a tag is reported. -/
def reported (name : String) (w : World) : Except Failure Value → Except Stop Value
  | .ok v => .ok v
  | .error e =>
    .error (.failed (if e.fault.ofTemplates then e else
      .because (.ofTag name e.fault w.reportHere) e))

theorem reported_congr (name : String) (h : w.renderings = v.renderings)
    (r : Except Failure Value) : reported name w r = reported name v r := by
  have hreport : w.reportHere = v.reportHere := by
    rw [World.reportHere, World.reportHere, World.rendering?, World.rendering?, h]
  rw [reported.eq_def, reported.eq_def, hreport]

/-- The report of a tag whose faults may be caught. -/
theorem exec_callTag_result {name : String} {act : Run World Value} {r : Except Failure Value}
    (e : act.exec w = (r.mapError .failed, w'))
    (hr : ∀ f, r = .error f → f.fault.catchable = true) :
    ((callTag name act).exec w).1 = reported name w' r := by
  rw [callTag, Run.exec_catching, e]
  rcases r with f | a
  · show (if f.fault.catchable then _ else _ : Except Stop Value × World).1 = _
    rw [if_pos (hr f rfl), reported]
    by_cases h : f.fault.ofTemplates = true
    · rw [if_pos h, if_pos h]
      rfl
    · rw [if_neg h, if_neg h]
      rfl
  · rfl

/-! ### Calls -/

namespace Recipe

/-- One call of a tag with certain values.  If it is chosen it also keeps the handle it is lent. -/
def call (d : Recipe) (chosen : World → Bool) (vs : List Value) (lent : Option Nat) :
    Run World Value := do
  modify fun w => if chosen w then w.keep lent else w
  (d.conduct vs).run lent.toList

/-- Every fault of a recipe may be caught. -/
theorem catchable_perform (d : Recipe) (vs : List Value) (h : Heap) (c : Option (Context Value))
    (f : Failure) (e : (d.perform vs h c).1 = .error f) : f.fault.catchable = true := by
  induction d generalizing vs h c with
  | give p => cases e
  | raise f' hf => exact Except.error.inj e ▸ hf
  | read n next ih => exact ih _ _ _ _ e
  | names next ih => exact ih _ _ _ _ e
  | write n p next ih => exact ih _ _ _ e
  | view p next ih => exact ih _ _ _ _ e
  | part p n next ih => exact ih _ _ _ _ e
  | member p s next ih => exact ih _ _ _ _ e
  | atom a next ih => exact ih _ _ _ e
  | list ps next ih => exact ih _ _ _ e
  | tuple ps next ih => exact ih _ _ _ e
  | entry d k p next ih => exact ih _ _ _ e

end Recipe

/-- The world when the context of a slot was handed to a tag, which may have kept its handle. -/
def World.handed (slot : Nat) (kept : Bool) (w : World) : World :=
  let begun := w.startOfCall slot (w.loans.slotAt slot).context
  if kept then begun.keep (some (w.loans.handles.size + 1)) else begun

section Handed

variable (f : w.Fit slot) (kept : Bool)

theorem World.heap_handed : (w.handed slot kept).heap = w.heap := by
  cases kept <;> exact World.heap_changeTally ..

theorem World.renderings_handed : (w.handed slot kept).renderings = w.renderings := by
  cases kept <;> exact World.renderings_changeTally ..

theorem World.counts_handed :
    (w.handed slot kept).counts = (w.changeTally Tally.start).counts := by
  cases kept <;> rfl

theorem World.kept_handed : ∀ h ∈ (w.handed slot kept).kept,
    h ∈ w.kept ∨ h = w.loans.handles.size + 1 := by
  intro h hh
  have hkept : ∀ l : Loans Value,
      World.kept { w.changeTally Tally.start with loans := l } = w.kept :=
    fun _ => World.kept_changeTally ..
  cases kept with
  | false => exact .inl (hkept _ ▸ hh)
  | true =>
    rcases List.mem_append.mp hh with hh | hh
    · exact .inl (hkept _ ▸ hh)
    · exact .inr (List.mem_singleton.mp hh)

theorem World.row_handed : (w.handed slot kept).loans.handles.get? (w.loans.handles.size + 1) =
    some ⟨w.loans.cells.size, false, kept.toNat + 1⟩ := by
  have hrow := Loans.lent_row slot (w.loans.slotAt slot).context w.loans
  cases kept with
  | false => exact hrow
  | true => exact Table.get?_modify_self _ hrow

theorem World.size_handed : (w.handed slot kept).loans.handles.size = w.loans.handles.size + 2 := by
  have h : ((w.loans.handles.add ⟨w.loans.cells.size, false, 1⟩).add
      ⟨w.loans.cells.size, false, 1⟩).size = w.loans.handles.size + 2 := by
    rw [Table.size_add, Table.size_add]
  cases kept with
  | false => exact h
  | true => exact (Table.size_modify ..).trans h

include f

theorem World.Fit.live_handed : (w.handed slot kept).loans.live w.loans.cells.size =
    {w.loans.handles.size + 1, w.loans.handles.size} := by
  have h := Loans.live_lentOut f.sound slot (w.loans.slotAt slot).context
  cases kept with
  | false => exact h
  | true => exact (Loans.live_holders _ _ _ (· + 1)).trans h

theorem World.Fit.atWork_handed : AtWork w.loans.handles.size w.loans.cells.size
    (w.loans.slotAt slot).context [w.loans.handles.size + 1] (w.handed slot kept).loans := by
  have a := AtWork.lentOut f.sound slot f.context_lt
  cases kept with
  | false => exact a
  | true => exact a.holders (List.mem_singleton_self _) (· + 1)

theorem World.Fit.serves_handed : Recipe.Serves w.loans.handles.size w.loans.cells.size
    (w.handed slot kept) [w.loans.handles.size + 1] (some (w.loans.slotAt slot).context) :=
  .lent (f.atWork_handed kept) (by rw [Loans.handleAt_eq (w.row_handed kept)])

theorem World.Fit.contextAt_handed :
    (w.handed slot kept).loans.contextAt (w.loans.slotAt slot).context = w.contextIn slot := by
  have h : (w.loans.contexts.add .empty).get? (w.loans.slotAt slot).context =
      w.loans.contexts.get? (w.loans.slotAt slot).context :=
    Table.get?_add_of_lt _ f.context_lt
  cases kept <;> exact congrArg (·.getD .empty) h

theorem World.Fit.sound_handed : (w.handed slot kept).loans.Sound := by
  have h := f.sound.lentOut slot f.context_lt
  cases kept with
  | false => exact h
  | true => exact h.changeHandle _ fun _ => rfl

theorem World.Fit.slot_handed : ∃ q, (w.handed slot kept).loans.slots.get? slot = some q := by
  obtain ⟨q, e⟩ := f.slot_row
  cases kept <;> exact ⟨_, Table.get?_modify_self _ e⟩

end Handed

namespace Recipe

/-- What comes of a call with certain values in the context of a slot. -/
abbrev performIn (d : Recipe) (vs : List Value) (slot : Nat) (w : World) :
    Except Failure Value × Heap × List Write := d.perform vs w.heap (some (w.contextIn slot))

/-- The world when the tag is done. -/
def done (d : Recipe) (kept : Bool) (vs : List Value) (slot : Nat) (w : World) : World :=
  let x := d.performIn vs slot w
  { (w.handed slot kept).wrote (some (w.loans.slotAt slot).context) x.2.2 with heap := x.2.1 }

theorem exec_call_lent (d : Recipe) (chosen : World → Bool) (vs : List Value) (f : w.Fit slot) :
    let begun := w.startOfCall slot (w.loans.slotAt slot).context
    (d.call chosen vs (some (w.loans.handles.size + 1))).exec begun =
      ((d.performIn vs slot w).1.mapError .failed, d.done (chosen begun) vs slot w) := by
  intro begun
  let kept := chosen begun
  have hcontext : (w.handed slot kept).lentContext (some (w.loans.slotAt slot).context) =
      some (w.contextIn slot) := congrArg some (f.contextAt_handed kept)
  have h := d.exec_conduct (f.serves_handed kept) vs
  rw [World.heap_handed, hcontext] at h
  rw [call, Run.exec_modify_bind]
  exact h

/-- When the tag is done it was lent the context, and wrote to it. -/
theorem done_done (d : Recipe) (kept : Bool) (vs : List Value) (f : w.Fit slot) :
    Done slot (d.performIn vs slot w).2.2 w (d.done kept vs slot w) := by
  have a := f.atWork_handed kept
  have a' : AtWork _ _ _ [] (w.handed slot kept).loans := a.mono fun x hx => nomatch hx
  refine ⟨a'.changeContext _, (f.sound_handed kept).changeContext _ _,
    f.slot_handed kept, ?_, fun h hh => ?_⟩
  · exact (Loans.contextAt_changeContext a.context_lt _).trans
      (congrArg (Context.writeAll · _) (f.contextAt_handed kept))
  · show h < (w.handed slot kept).loans.handles.size
    rw [World.size_handed]
    rcases World.kept_handed kept h hh with hh | rfl
    · exact Nat.lt_of_lt_of_le (f.kept h hh) (Nat.le_add_right ..)
    · exact Nat.lt_succ_self _

/-- What comes back to the slot after a call: the context, or a copy if the tag kept its handle. -/
inductive Back (x : Except Failure Value × Heap × List Write) (c : Context Value) :
    Bool → Heap → Context Value → Prop
  | itself : Back x c false x.2.1 (c.writeAll x.2.2)
  | copy {y : Context Value} {s : Copying}
      (e : ((c.writeAll x.2.2).copyWith Copying.deepCopy recordSharing).exec ⟨x.2.1, [], [], []⟩
        = (.ok y, s)) : Back x c true s.heap y

/-- When the tag has given its handle back, it is live just if it was kept. -/
theorem live_done (d : Recipe) (kept : Bool) (vs : List Value) (f : w.Fit slot) :
    ((d.done kept vs slot w).loans.withLetGo (w.loans.handles.size + 1)).live w.loans.cells.size =
      {w.loans.handles.size} ↔ kept = false := by
  have hrow : (d.done kept vs slot w).loans.handles.get? (w.loans.handles.size + 1) = _ :=
    w.row_handed kept
  have hlive : (d.done kept vs slot w).loans.live w.loans.cells.size = _ := f.live_handed kept
  have hne : w.loans.handles.size + 1 ∉ ({w.loans.handles.size} : Finset Nat) := by
    rw [Finset.mem_singleton]
    exact Nat.succ_ne_self _
  rw [Loans.live_withLetGo hrow, hlive]
  cases kept with
  | false =>
    rw [if_pos Bool.toNat_false, Finset.erase_insert hne]
    exact iff_of_true rfl rfl
  | true =>
    rw [Bool.toNat_true, if_neg Nat.one_ne_zero]
    refine iff_of_false (fun h => hne ?_) nofun
    rw [← h]
    exact Finset.mem_insert_self ..

/-- A call that is lent the context of a slot. -/
theorem exec_lend_call (d : Recipe) (chosen : World → Bool) (vs : List Value) (f : w.Fit slot)
    (name : String) {h : Heap} {y : Context Value} :
    let begun := w.startOfCall slot (w.loans.slotAt slot).context
    let out := (lend name slot Copying.deepCopy fun lent => d.call chosen vs (some lent)).exec w
    Back (d.performIn vs slot w) (w.contextIn slot) (chosen begun) h y →
      out.1 = reported name w (d.performIn vs slot w).1 ∧ w.counted.Left slot h y out.2 := by
  intro begun out b
  let act := d.call chosen vs (some (w.loans.handles.size + 1))
  let ended := begun.endOfCall name (w.loans.handles.size + 1) act
  have hcall : act.exec begun = _ := d.exec_call_lent chosen vs f
  generalize chosen begun = kept at hcall b
  have hcatchable := d.catchable_perform vs w.heap (some (w.contextIn slot))
  have hcut : cutShort ((d.performIn vs slot w).1.mapError .failed) = false := by
    rcases e : (d.performIn vs slot w).1 with f | a
    · exact congrArg (! ·) (hcatchable f e)
    · rfl
  have hgive := exec_giveBack (w.loans.handles.size + 1) act begun
  rw [hcall, hcut, if_neg Bool.false_ne_true] at hgive
  have hrest : ended = _ := callTag_rest name _ begun
  rw [hgive] at hrest
  have hrenderings : ended.renderings = w.renderings := by
    rw [hrest]
    exact w.renderings_handed kept
  have hcounts : ended.counts = (w.changeTally Tally.start).counts := by
    rw [hrest]
    exact w.counts_handed kept
  have hended : Done slot (d.performIn vs slot w).2.2 w ended :=
    Done.endOfCall (by rw [hcall]; exact d.done_done kept vs f) name
  have hlive : ended.loans.live w.loans.cells.size = {w.loans.handles.size} ↔ kept = false := by
    rw [hrest]
    exact d.live_done kept vs f
  have hheap : ended.heap = (d.performIn vs slot w).2.1 := by
    rw [hrest]
    rfl
  have hback : ended.ComesBack w.loans.handles.size w.loans.cells.size
      (w.loans.slotAt slot).context h y := by
    cases b with
    | itself =>
      rw [← hheap, ← hended.written]
      exact .itself (hlive.mpr rfl)
    | copy e =>
      rw [← hheap, ← hended.written] at e
      exact .copy (fun h => Bool.noConfusion (hlive.mp h)) e
  obtain ⟨hresult, hleft⟩ := hended.left_endCall hrenderings hcounts hback name
    ((callTag name (giveBack (w.loans.handles.size + 1) act)).exec begun).1
    (w.loans.handles.size + 1)
  have hout : out = _ := exec_lend ..
  refine ⟨?_, hout ▸ hleft⟩
  rw [hout]
  refine hresult.trans ((exec_callTag_result hgive hcatchable).trans (reported_congr name ?_ _))
  exact w.renderings_handed kept

/-- A call that is lent nothing. -/
theorem exec_callTag_call (d : Recipe) (chosen : World → Bool) (vs : List Value) (f : w.Fit slot)
    (name : String) :
    let x := d.perform vs w.heap none
    let out := (callTag name (d.call chosen vs none)).exec w
    out.1 = reported name w x.1 ∧ w.Left slot x.2.1 (w.contextIn slot) out.2 := by
  intro x out
  have hkeep : (if chosen w then w.keep none else w) = w := ite_self w
  have hserves : Serves 0 0 w [] none := .none
  have hcall : (d.call chosen vs none).exec w =
      (x.1.mapError .failed, { w with heap := x.2.1 }) := by
    rw [call, Run.exec_modify_bind, hkeep]
    exact d.exec_conduct hserves vs
  have hrest : out.2 = _ := callTag_rest name _ w
  rw [hcall] at hrest
  have hresult : out.1 = _ := exec_callTag_result hcall (d.catchable_perform vs w.heap none)
  refine ⟨hresult.trans (reported_congr name rfl _), ?_⟩
  rw [hrest]
  exact ⟨f.congr rfl rfl, rfl, rfl, rfl, rfl⟩

end Recipe

/-! ### Calls that echo -/

section Calls

variable {ρ : Nat → Nat} {g g' : Pairing}

/-- Mirrored writes are made. -/
theorem Context.Mirrors.writeAll {x y : Context Value} {ws ws' : List Write} (m : x.Mirrors g y)
    (h : Bindings.EntriesMirror g ws ws') : (x.writeAll ws).Mirrors g (y.writeAll ws') := by
  induction h generalizing x y with
  | nil => exact m
  | @cons e e' ws ws' he _ ih =>
    obtain ⟨n, b⟩ := e
    obtain ⟨n', b'⟩ := e'
    obtain ⟨rfl, hb⟩ : n' = n ∧ b.Mirrors g b' := he
    exact ih (m.set n' hb)

theorem likewise_reported {P : Value → Value → Prop} (name : String)
    (h : w.renderings = v.renderings) {r r' : Except Failure Value} (hr : Likewise P r r') :
    Likewise P (reported name w r) (reported name v r') := by
  cases hr with
  | ok h => exact .ok h
  | error e =>
    rw [reported_congr name h]
    exact .error _

theorem World.Left.mirrors {h h' : Heap} {x y : Context Value} (l : w.Left slot h x w')
    (l' : v.Left slot h' y v') (hr : w.renderings = v.renderings) (hc : w.counts = v.counts)
    (hm : h.Mirrors ρ g' h') (hx : x.Mirrors g' y) : w'.Mirrors ρ g' slot v' where
  fit := l.fit
  fit' := l'.fit
  heap := by
    rw [l.heap, l'.heap]
    exact hm
  context := by
    rw [l.context, l'.context]
    exact hx
  renderings := by rw [l.renderings, l'.renderings, hr]
  counts := by rw [l.counts, l'.counts, hc]

namespace Recipe

/-- Whatever comes back mirrors what the context does. -/
theorem exists_back {x y : Except Failure Value × Heap × List Write} {c d : Context Value}
    (hm : x.2.1.Mirrors ρ g y.2.1) (hc : (c.writeAll x.2.2).Mirrors g (d.writeAll y.2.2))
    (kept : Bool) : ∃ h z g', Back x c kept h z ∧ g.Extends g' ∧ h.Mirrors ρ g' y.2.1 ∧
      z.Mirrors g' (d.writeAll y.2.2) := by
  cases kept with
  | false => exact ⟨_, _, g, .itself, .refl g, hm, hc⟩
  | true =>
    obtain ⟨z, s, g', e, hg, hm', hz⟩ := copyWith_mirrors hm hc
    exact ⟨_, z, g', .copy e, hg, hm', hz⟩

variable {vs vs' : List Value} (m : w.Mirrors ρ g slot v) (hvs : Value.AllMirror g vs vs')
include m hvs

/-- A call that is lent the context echoes one that keeps no handle. -/
theorem echoes_lend (d : Recipe) (chosen : World → Bool) (name : String) :
    Echoes ρ g slot Context.Beneath Value.Mirrors w v
      (lend name slot Copying.deepCopy fun lent => d.call chosen vs (some lent))
      (lend name slot Copying.deepCopy fun lent => d.call (fun _ => false) vs' (some lent)) := by
  obtain ⟨g₁, hg, hm, hr, hws⟩ := d.perform_mirrors m.heap hvs (.some m.context)
  have hwritten := (m.context.mono hg).writeAll hws
  obtain ⟨h, z, g₂, b, hg', hm', hz⟩ := exists_back hm hwritten
    (chosen (w.startOfCall slot (w.loans.slotAt slot).context))
  obtain ⟨e, l⟩ := d.exec_lend_call chosen vs m.fit name b
  obtain ⟨e', l'⟩ := d.exec_lend_call (fun _ => false) vs' m.fit' name .itself
  have hrenderings : w.counted.renderings = v.counted.renderings := by
    rw [World.renderings_counted, World.renderings_counted, m.renderings]
  refine ⟨g₂, hg.trans hg', l.mirrors l' hrenderings
    (World.counts_counted_eq m.renderings m.counts) hm' hz, ?_, ?_⟩
  · rw [e, e']
    exact likewise_reported name m.renderings (hr.imp fun _ _ hab => hab.mono hg')
  · rw [l'.context]
    exact Context.outer_writeAll ..

theorem echoes_callTag (d : Recipe) (chosen : World → Bool) (name : String) :
    Echoes ρ g slot Context.Beneath Value.Mirrors w v (callTag name (d.call chosen vs none))
      (callTag name (d.call (fun _ => false) vs' none)) := by
  obtain ⟨g₁, hg, hm, hr, -⟩ := d.perform_mirrors m.heap hvs .none
  obtain ⟨e, l⟩ := d.exec_callTag_call chosen vs m.fit name
  obtain ⟨e', l'⟩ := d.exec_callTag_call (fun _ => false) vs' m.fit' name
  refine ⟨g₁, hg, l.mirrors l' m.renderings m.counts hm (m.context.mono hg), ?_, ?_⟩
  · rw [e, e']
    exact likewise_reported name m.renderings hr
  · rw [l'.context]
    rfl

/-- Calls of tags, of both modes. -/
theorem echoes_renderTag (recipes : List Action → Recipe) (chosen : World → Bool)
    (entry : TagEntry) :
    Echoes ρ g slot Context.Beneath SameResult w v
      (renderTag entry slot Copying.deepCopy fun body lent => (recipes body).call chosen vs lent)
      (renderTag entry slot Copying.deepCopy fun body lent =>
        (recipes body).call (fun _ => false) vs' lent) := by
  rw [renderTag.eq_def, renderTag.eq_def]
  refine .modify_bind rfl ?_
  have m₀ := m.changeRendering fun r => { r with tagDepth := r.tagDepth + 1 }
  refine Echoes.bind (P := Value.Mirrors)
    (.ensuring_modify ?_ (fun m => m.changeRendering _) fun _ => rfl)
    fun g₁ w₁ v₁ a b _ m₁ hab _ => ?_
  · cases entry with
    | filter f => exact .fail m₀ _
    | tag t =>
      dsimp only
      split
      · exact echoes_callTag m₀ hvs (recipes t.body) chosen t.name
      · exact echoes_lend m₀ hvs (recipes t.body) chosen t.name
  · refine .get_bind ?_
    rw [m₁.heap.printed_eq hab]
    exact .ofExcept_same m₁ _

end Recipe

end Calls

/-! ### Hosts -/

/-- A filter that is a recipe: it is told nothing but what it is given. -/
def Recipe.asFilter (d : Recipe) (vs : List Value) : Run Heap Value := do
  let h ← get
  let r := d.perform vs h none
  set r.2.1
  Run.resume (r.1.mapError .failed)

/-- Every filter is the one that its name says, or follows recipes, one for each number of values. -/
def Host.PureFilters (host : Host) : Prop :=
  ∀ f, (∀ vs, host.filter f vs = f.apply vs) ∨
    ∃ recipes : Nat → Recipe, ∀ vs, host.filter f vs = (recipes vs.length).asFilter vs

theorem Host.PureFilters.echo {host : Host} (p : host.PureFilters) (ρ : Nat → Nat) :
    host.FiltersEcho ρ host := by
  intro g h h' f vs vs' m hvs hf
  rcases p f with happly | ⟨recipes, hrecipe⟩
  · rw [happly, happly]
    exact m.reflects_apply f hvs hf
  · rw [hrecipe, hrecipe, hvs.length_eq]
    obtain ⟨g', hg, m', hr, -⟩ := (recipes vs'.length).perform_mirrors m hvs .none
    exact ⟨g', hg, m', hr.mapError Stop.failed⟩

/-- The host whose tags follow recipes: how a tag goes on depends on its body, on the number of its
arguments and on the names of others.  The chosen calls also keep the handles they are lent. -/
def Host.follows (host : Host) (tags : List Action → Nat → List String → Recipe)
    (chosen : World → Bool) : Host :=
  { host with
    call := fun body lent vs ns =>
      (tags body vs.length ns.keys).call chosen (vs ++ ns.entries.map (·.2)) lent }

theorem Host.inChorus_follows {ρ : Nat → Nat} {host : Host} (filters : host.PureFilters)
    {r : Renderer} (hclone : host.clone r.clone = Copying.deepCopy)
    (tags : List Action → Nat → List String → Recipe) (chosen : World → Bool) :
    r.InChorus ρ (host.follows tags chosen) (host.follows tags fun _ => false) where
  filters := filters.echo ρ
  growth := rfl
  calls entry g w v vs vs' ns ns' m hvs hns := by
    have hnamed := Bindings.Mirrors.ofList hns
    have hall := List.rel_append hvs hnamed.values
    rw [follows, follows]
    dsimp only
    rw [hclone, hvs.length_eq, hnamed.keys_eq]
    exact Recipe.echoes_renderTag m hall (tags · vs'.length (Bindings.ofList ns').keys) chosen entry

end Stencil
