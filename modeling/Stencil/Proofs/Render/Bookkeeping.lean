/-
Stencil/Proofs/Render/Bookkeeping.lean

The books of a render balance.  Around a call of a tag, however it ends, the
hand-overs that are not counted as reclaimed have grown by those whose context
could not be got back; the copies have grown by the hand-overs that somebody
else still held a handle of when the context was asked back, where that
succeeded; and the renders under way are as before.  While a tag runs, the depth
of calls is the number of calls that are active in the whole chain of renders.

For a single call that comes from what is done before, in and after the function
of the tag (`TagCall.audits_eventsBy`), and for tags that render in turn by
induction on how deep renders are nested (`inside_audits`).
-/
import Stencil.Proofs.Render.Yielding

namespace Stencil

variable {w w' : World} {i d : Nat}

/-! ### Lending and getting back -/

/-- What a hand-over adds to the counts, around what is counted in it. -/
theorem Tally.counting_asked (es : List Event) (back : Handoff) (x : Tally) :
    x.counting (es ++ [.asked back]) =
      if back.Raises then x.start.counting es
      else (x.start.counting es).record (if back.Held then .deepCopy else .unique) := by
  have hasked : handoffsIn (es ++ [.asked back]) = handoffsIn es ++ [back] := handoffsIn_append
  rw [counting, aloneIn, heldIn, hasked, List.length_append, List.countP_append,
    List.countP_append]
  by_cases hr : back.Raises
  · simp [hr, counting, start, aloneIn, heldIn]
    omega
  · by_cases hh : back.Held
    · simp [hr, hh, counting, start, record, aloneIn, heldIn]
      omega
    · simp [hr, hh, counting, start, record, aloneIn, heldIn]
      omega

theorem Loans.live_subset_withHandle (l : Loans Value) (k j : Nat) :
    l.live j ⊆ (l.withHandle k).live j := by
  by_cases hk : k = j
  · subst hk
    rw [live_withHandle]
    exact Finset.subset_insert _ _
  · rw [live_withHandle_of_ne hk]

/-- The context of a slot is lent out: there are two handles more, on a new cell. -/
structure LentOut (i d : Nat) (w e : World) : Prop where
  order : e.InOrder
  books : e.books = some (i, d)
  size : e.loans.handles.size = w.loans.handles.size + 2
  kept : e.kept = w.kept
  own : w.loans.handles.size ∈ e.loans.live w.loans.cells.size
  spares : ∀ h, Spares h w e

theorem World.InOrder.lentOut (o : w.InOrder) (b : w.books = some (i, d)) (slot c : Nat) :
    LentOut i d w (w.startOfCall slot c) := by
  have htaken : (w.loans.taken slot).Balanced := o.balanced.quiet (.of_eq rfl rfl)
  let first : Loans Value := (w.loans.taken slot).wrapped c
  have hfirst : first.Balanced := htaken.wrapped c
  have hrow : first.handles.get? w.loans.handles.size = some ⟨w.loans.cells.size, false, 1⟩ :=
    Table.get?_add_new ..
  have hloans : (w.startOfCall slot c).loans = first.withHandle w.loans.cells.size := rfl
  have hsize : (w.startOfCall slot c).loans.handles.size = w.loans.handles.size + 2 := by
    show ((w.loans.handles.add _).add _).size = _
    rw [Table.size_add, Table.size_add]
  have hlive : ∀ k, w.loans.live k ⊆ (w.startOfCall slot c).loans.live k := by
    intro k
    have hout : w.loans.live k = (Loans.takenOut slot c w.loans).live k := Loans.live_congr rfl k
    rw [hout]
    exact (Loans.live_subset_withHandle _ _ k).trans (Loans.live_subset_withHandle _ _ k)
  have hkept : (w.startOfCall slot c).kept = w.kept := World.kept_changeTally ..
  have htallies : (w.startOfCall slot c).tallies = w.tallies.modify i Tally.start := by
    rw [World.startOfCall, World.changeTally_eq b]
  have hbooks : (w.startOfCall slot c).books = some (i, d) :=
    (World.books_congr (World.renderings_changeTally ..)).trans b
  refine
    { order :=
        { balanced := hloans ▸ hfirst.withHandle hrow rfl
          kept := fun h hmem => ?kept
          counted := fun j e hj => ?counted }
      books := hbooks
      size := hsize
      kept := hkept
      own := ?own
      spares := fun h hlt hmem => ⟨?there, hkept ▸ hmem, fun k hk => hlive k hk⟩ }
  case kept =>
    have hlt := o.kept h (hkept ▸ hmem)
    omega
  case counted =>
    obtain ⟨rfl, rfl⟩ := Prod.mk.inj (Option.some.inj (hj.symm.trans hbooks))
    rw [htallies, Table.size_modify]
    exact o.counted _ _ b
  case own =>
    rw [hloans]
    exact Loans.live_subset_withHandle _ _ _ (Loans.mem_live.mpr ⟨1, hrow⟩)
  case there => omega

/-- What has been done when a context is asked back: the hand-over is counted, the events are those
of the function, and the handle of the render is live. -/
structure Due (i d around : Nat) (es : List Event) (w e : World) : Prop where
  audited : Audited (fun h => h < w.loans.handles.size) i d around es (w.changeTally Tally.start) e
  own : w.loans.handles.size ∈ e.loans.live w.loans.cells.size

theorem World.InOrder.due {es : List Event} {around : Nat} {body : Run World Value} (o : w.InOrder)
    (b : w.books = some (i, d)) (name : String) (slot c : Nat)
    (hbody : let e := w.startOfCall slot c
      Audits (fun h => h < e.loans.handles.size ∧ h ∉ [w.loans.handles.size + 1]) i d around es e
        (body.exec e).2) :
    Due i d around es w ((w.startOfCall slot c).endOfCall name (w.loans.handles.size + 1) body) := by
  have l := o.lentOut b slot c
  have a := hbody l.order l.books
  obtain ⟨y, s⟩ := yields_endOfCall name (w.loans.handles.size + 1) body (w.startOfCall slot c)
  have hspares : ∀ h, h ≤ w.loans.handles.size → Spares h (w.startOfCall slot c)
      ((w.startOfCall slot c).endOfCall name (w.loans.handles.size + 1) body) := by
    intro h hle
    have hsize := l.size
    have hsafe : h < (w.startOfCall slot c).loans.handles.size ∧ h ∉ [w.loans.handles.size + 1] :=
      ⟨by omega, fun hmem => by have := List.mem_singleton.mp hmem; omega⟩
    exact trans_of (Spares h) (a.spares h hsafe) (.of_yields y s.kept (by omega))
  constructor
  case audited =>
    exact
      { order := a.order.of_yields y s.kept (s.tallies ▸ le_rfl) (World.books_congr s.renderings)
        books := (World.books_congr s.renderings).trans a.books
        tallies := by
          rw [s.tallies]
          exact a.tallies
        sound := a.sound
        grows := by
          have hsize := l.size
          have hgrows := a.grows.trans y.grows
          rw [World.loans_changeTally]
          omega
        spares := fun h hlt => by
          have hstart : Spares h (w.changeTally Tally.start) w :=
            .of_loans (by rw [World.loans_changeTally]) (World.kept_changeTally ..).symm
          exact trans_of (Spares h) hstart (trans_of (Spares h) (l.spares h) (hspares h hlt.le)) }
  case own =>
    have hsize := l.size
    have hkept : w.loans.handles.size ∉ (w.startOfCall slot c).kept := by
      intro hmem
      exact (o.kept _ (l.kept ▸ hmem)).false
    exact (hspares _ le_rfl (by omega) hkept).2.2 _ l.own

/-- The way back is counted, and the handles are let go of. -/
theorem Due.back {es : List Event} {around : Nat} {e : World} (due : Due i d around es w e)
    (b : w.books = some (i, d)) (name : String) (slot : Nat) (clone : Clone) (cut : Bool) :
    let own := w.loans.handles.size
    let v := ((getBack name slot own clone).exec e).2
    Audited (fun _ => True) i d around (es ++ [.asked ⟨own, clone, e⟩]) w
      { v with loans := v.loans.letGoOf own (own + 1) cut } := by
  intro own v
  let back : Handoff := ⟨own, clone, e⟩
  have a := due.audited
  have hback : SameBooks (if back.Raises then e
      else { e with tallies := e.tallies.modify i (·.record (e.wayBack own)) }) v := by
    have hrest : SameBooks ((reclaim own clone).exec e).2 v :=
      getBack_afterReclaim (fun slot c w => (lendsWithin_sameBooks.onLoans _ w))
        lendsWithin_sameBooks.writeRecord name slot own clone e
    obtain ⟨hlost, hfound⟩ := sameBooks_reclaim a.books own clone
    split
    · next hr => exact trans_of SameBooks (hlost hr) hrest
    · next hr => exact trans_of SameBooks (hfound hr) hrest
  have hrenderings : v.renderings = e.renderings := by
    rw [hback.renderings]
    split <;> rfl
  have hkept : v.kept = e.kept := by
    rw [hback.kept]
    split <;> rfl
  have htallies : v.tallies.get? i = (w.tallies.get? i).map
      (Tally.counting (es ++ [.asked back])) := by
    have hcell : (e.loans.handleAt own).cell = w.loans.cells.size := by
      obtain ⟨n, hrow⟩ := Loans.mem_live.mp due.own
      rw [Loans.handleAt_eq hrow]
    have hway := a.order.wayBack_eq clone (hcell ▸ due.own)
    have hstart := a.tallies
    rw [World.changeTally_eq b, Table.get?_modify, if_pos rfl, Option.map_map] at hstart
    rw [hback.tallies, funext (Tally.counting_asked es back)]
    split
    · exact hstart
    · show (e.tallies.modify i _).get? i = _
      rw [Table.get?_modify, if_pos rfl, hstart, Option.map_map, hway]
      rfl
  have hyields : World.Yields own e v := (World.Yields.keeps_getBack name slot clone e).state
  obtain ⟨u, hlent, hsame, hown⟩ := yields_letGoOf own (own + 1) cut v
  have hsize : v.tallies.size = e.tallies.size := by
    rw [hback.tallies]
    split
    · rfl
    · exact Table.size_modify ..
  have hv : v.InOrder :=
    a.order.of_yields hyields hkept hsize.ge (World.books_congr hrenderings)
  have hu : u.InOrder :=
    hv.of_yields hlent hsame.kept (hsame.tallies ▸ le_rfl) (World.books_congr hsame.renderings)
  exact
    { order := hu.of_yields hown hsame.kept.symm (hsame.tallies ▸ le_rfl)
        (World.books_congr hsame.renderings.symm)
      books := (World.books_congr hrenderings).trans a.books
      tallies := htallies
      sound := fun x hx => (List.mem_append.mp hx).elim (a.sound x) fun hx => by
        obtain rfl := List.mem_singleton.mp hx
        trivial
      grows := by
        have hgrows := a.grows
        rw [World.loans_changeTally] at hgrows
        exact ((hgrows.trans hyields.grows).trans hlent.grows).trans hown.grows
      spares := fun h _ hlt => by
        have hstart : Spares h w (w.changeTally Tally.start) :=
          .of_loans (by rw [World.loans_changeTally]) (World.kept_changeTally ..)
        have hne : h ≠ own := hlt.ne
        have hne' : h ≠ own + 1 := by omega
        have h₁ := trans_of (Spares h) hstart (a.spares h hlt)
        have h₂ := trans_of (Spares h) h₁ (.of_yields hyields hkept hne)
        have h₃ := trans_of (Spares h) h₂ (.of_yields hlent hsame.kept hne')
        exact trans_of (Spares h) h₃ (.of_yields hown hsame.kept.symm hne) hlt }

/-! ### Calls -/

theorem World.books_inCall (b : w.books = some (i, d)) : w.inCall.books = some (i, d + 1) := by
  obtain ⟨x, hx, hxid⟩ := Option.map_eq_some_iff.mp b
  obtain ⟨rfl, rfl⟩ := Prod.mk.inj hxid
  rw [inCall, World.books_changeRendering, hx]
  rfl

theorem World.books_outOfCall (b : w.books = some (i, d + 1)) : w.outOfCall.books = some (i, d) := by
  obtain ⟨x, hx, hxid⟩ := Option.map_eq_some_iff.mp b
  obtain ⟨hi, hd⟩ := Prod.mk.inj hxid
  rw [outOfCall, World.books_changeRendering, hx]
  exact congrArg some (Prod.ext hi (Nat.sub_eq_of_eq_add hd))

/-- Entering a call. -/
theorem World.InOrder.inCall (o : w.InOrder) (b : w.books = some (i, d)) : w.inCall.InOrder :=
  o.congr rfl rfl rfl rfl fun j e hj => by
    obtain ⟨rfl, -⟩ := Prod.mk.inj (Option.some.inj (hj.symm.trans (World.books_inCall b)))
    exact ⟨d, b⟩

/-- Leaving a call. -/
theorem Audited.outOfCall {safe : Nat → Prop} {around : Nat} {es : List Event}
    (a : Audited safe i (d + 1) around es w.inCall w') :
    Audited safe i d around es w w'.outOfCall where
  order := a.order.congr rfl rfl rfl rfl fun j e hj => by
    have hout := World.books_outOfCall a.books
    obtain ⟨rfl, -⟩ := Prod.mk.inj (Option.some.inj (hj.symm.trans hout))
    exact ⟨_, a.books⟩
  books := World.books_outOfCall a.books
  tallies := a.tallies
  sound := a.sound
  grows := a.grows
  spares := a.spares

/-- It is enough to spare the handles that were there. -/
theorem Audited.of_there {safe : Nat → Prop} {around : Nat} {es : List Event}
    (a : Audited safe i d around es w w') (there : ∀ h, h < w.loans.handles.size → safe h) :
    Audited (fun _ => True) i d around es w w' :=
  { a with spares := fun h _ hlt => a.spares h (there h hlt) hlt }

/-- Records are beside the books. -/
theorem Audited.noting {safe : Nat → Prop} {around : Nat} {es : List Event}
    (a : Audited safe i d around es w w') (xs : List Record) :
    Audited safe i d around es w { w' with records := xs } :=
  { a with order := a.order.congr rfl rfl rfl rfl fun _ e hj => ⟨e, hj⟩ }

namespace TagCall

variable {c : TagCall} {inside : Extents}

/-- A call leaves the books in order when functions of tags do: it counts what its events say. -/
theorem audits_eventsBy (hinside : Inside c.below inside) :
    Audits (fun _ => True) i d d (c.eventsBy inside) c.start c.finish := by
  intro o b
  rcases c with ⟨host, tags, depth, r, entry, vs, ns, w⟩
  cases entry with
  | filter f =>
    have hsame : SameRenderings w w.inCall.outOfCall := World.renderings_outOfCall rfl
    exact Audits.aside rfl rfl rfl rfl (World.books_congr hsame) o b
  | tag t =>
    let below := host.venturing tags depth
    have ho : w.inCall.InOrder := o.inCall b
    have hb : w.inCall.books = some (i, d + 1) := World.books_inCall b
    suffices hinvoke : Audited (fun _ => True) i (d + 1) d
        (eventsBy inside ⟨host, tags, depth, r, .tag t, vs, ns, w⟩) w.inCall
        ((t.invoke below r vs ns).exec w.inCall).2 by
      rw [finish, TagEntry.state_render]
      exact hinvoke.outOfCall
    rcases ht : t.mode with - | -
    · have a := hinside i d t.body none vs ns w.inCall nofun ho hb
      have hcall : ((t.invoke below r vs ns).exec w.inCall).2
          = ((callTag t.name (below.call t.body none vs ns)).exec w.inCall).2 := by
        rw [TagDefinition.invoke, ht]
      have hevents : eventsBy inside ⟨host, tags, depth, r, .tag t, vs, ns, w⟩
          = inside t.body none vs ns w.inCall := by
        simp only [eventsBy, TagDefinition.lent, TagDefinition.entered, ht, List.append_nil]
      rw [hcall, hevents, callTag_rest]
      exact (a.of_there fun h hlt => ⟨hlt, List.not_mem_nil⟩).noting _
    · let own := w.loans.handles.size
      have hdone : t.done below r.slot vs ns w
          = (w.inCall.startOfCall r.slot (w.loans.slotAt r.slot).context).endOfCall t.name (own + 1)
            (below.call t.body (some (own + 1)) vs ns) := by
        simp only [TagDefinition.done, TagDefinition.entered, TagDefinition.function,
          TagDefinition.lent, ht]
        rfl
      have hevents : eventsBy inside ⟨host, tags, depth, r, .tag t, vs, ns, w⟩
          = inside t.body (some (own + 1)) vs ns
              (w.inCall.startOfCall r.slot (w.loans.slotAt r.slot).context)
            ++ [.asked ⟨own, below.clone r.clone, t.done below r.slot vs ns w⟩] := by
        simp only [eventsBy, TagDefinition.lent, TagDefinition.entered, ht]
        rfl
      let c := (w.loans.slotAt r.slot).context
      have hthere : ∀ h ∈ (some (own + 1)).toList,
          h < (w.inCall.startOfCall r.slot c).loans.handles.size := by
        intro h hmem
        obtain rfl := List.mem_singleton.mp hmem
        exact Nat.lt_of_lt_of_eq (Nat.lt_succ_self _) (ho.lentOut hb r.slot c).size.symm
      have due := ho.due hb t.name r.slot c
        (hinside i d t.body (some (own + 1)) vs ns _ hthere)
      rw [TagDefinition.exec_invoke_context ht, hevents, hdone]
      exact due.back hb t.name r.slot (below.clone r.clone) _

/-- The books of a call, when functions of tags leave theirs in order. -/
theorem balanced_of (hinside : Inside c.below (extents c.host c.tags c.depth)) (o : c.start.InOrder)
    (b : c.start.books = some (i, d)) : c.Balanced := by
  have a : Audited (fun _ => True) i d d c.extent c.start c.finish := audits_eventsBy hinside o b
  have hend : c.finish.tally = c.start.tally.counting c.extent := by
    obtain ⟨x, hx⟩ := Table.exists_get? (o.counted i d b)
    rw [World.tally_eq a.books, World.tally_eq b, World.tallyAt, World.tallyAt, a.tallies, hx]
    rfl
  exact
    { renderings := (TagEntry.same_render (orderly_venturing c.host c.tags c.depth) c.entry c.start).state
      started := congrArg Tally.handoffs hend
      outstanding := (congrArg Tally.outstanding hend).trans Tally.outstanding_counting
      copies := congrArg Tally.deepCopy hend }

/-- What is noted of a call is right. -/
theorem audits (hinside : Inside c.below (extents c.host c.tags c.depth)) :
    Audits (fun _ => True) i d d (.called c :: c.extent) c.start c.finish := by
  intro o b
  have a : Audited (fun _ => True) i d d c.extent c.start c.finish := audits_eventsBy hinside o b
  have hcalled : Tally.counting (.called c :: c.extent) = Tally.counting c.extent :=
    funext fun x => Tally.counting_cons rfl
  refine { a with tallies := hcalled ▸ a.tallies, sound := fun e he => ?_ }
  rcases List.mem_cons.mp he with rfl | he
  · exact balanced_of hinside o b
  · exact a.sound e he

end TagCall

/-! ### Renders in renders -/

section

variable (host : Host) (tags : Ventures) (depth : Nat)

/-- What is noted of the calls of a render is right, when functions leave their books in order. -/
theorem noted_audits (hinside : Inside (host.venturing tags depth) (extents host tags depth))
    (i d : Nat) (r : Renderer) (entry : TagEntry) (vs : List Value) (ns : Bindings String Value)
    (w : World) :
    Audits (fun _ => True) i d d
      (notingCalls host tags depth (extents host tags depth) r entry vs ns w) w
      ((entry.render (host.venturing tags depth) r vs ns).exec w).2 :=
  TagCall.audits (c := ⟨host, tags, depth, r, entry, vs, ns, w⟩) hinside

/-- Induction on the depth: in a function of a tag, renders are nested less deep. -/
theorem inside_audits : Inside (host.venturing tags depth) (extents host tags depth) := by
  induction depth with
  | zero => exact fun i d _ _ _ _ w _ => .rest w
  | succ depth ih =>
    intro i d body lent vs ns w there
    refine Venture.audits (fun template slot w o i d b => ?_) (tags body lent vs ns w) w there
    exact (audited_render (noted_audits host tags depth ih) template slot o).2 i d b

/-- The books of a render balance, however the calls and renders in it end.  Around each call the
hand-overs that are not counted as reclaimed grow by those that could not be got back, the copies by
those that could while somebody else had a handle, and the renders under way are as before.  While
a tag runs, the depth has grown by the number of active calls in the chain of renders.  After each
render the renders under way are as before. -/
theorem renderSlot_balanced (template slot : Nat) (w : World) (order : w.InOrder) :
    let es := eventsIn host tags depth template slot w
    (∀ c ∈ callsIn es, c.Balanced) ∧
      (∀ active v, .runs active v ∈ es → v.depth = w.depth + active) ∧
      ∀ before after, .rendered before after ∈ es → after.renderings = before.renderings := by
  intro es
  have sound : ∀ e ∈ es, e.Sound w.depth :=
    (audited_render (noted_audits host tags depth (inside_audits host tags depth)) template slot
      order).1
  exact ⟨fun c hc => sound _ (mem_callsIn.mp hc), fun active v hv => sound _ hv,
    fun before after h => sound _ h⟩

end

theorem World.inOrder_ofTags (tags : List TagDefinition)
    (templates : List (String × List (Node Value))) : (World.ofTags tags templates).InOrder where
  balanced := World.balanced_unlent (World.ofTags tags templates)
  kept := nofun
  counted := nofun

/-- A tag that keeps its handle, in a template that another tag renders. -/
theorem renderSlot_balanced_nested :
    let keeps : TagDefinition := ⟨"keeps", [.keep], .context⟩
    let nest : TagDefinition := ⟨"nest", [], .plain⟩
    let w := World.ofTags [keeps, nest] [("inner", [.call ⟨3, 0⟩ "keeps" [] [] none]),
      ("outer", [.call ⟨7, 0⟩ "nest" [] [] none])]
    let tags : Ventures := fun body lent vs ns _ =>
      if body.isEmpty then .render 0 0 fun r _ => .finish (r.map Value.str)
      else .ofScript ⟨lent, vs, ns⟩ [.keep] fun a ha => by
        obtain rfl := List.mem_singleton.mp ha
        exact discreet_keep fun h hh => Option.mem_toList.mpr hh
    let es := eventsIn (scriptHost 0) tags 2 1 0 w
    w.InOrder ∧ ∃ c ∈ callsIn es, c.start.depth = 1 ∧ heldIn c.extent = 1 ∧ c.Balanced := by
  intro keeps nest w tags es
  have order : w.InOrder := World.inOrder_ofTags ..
  obtain ⟨c, hc, hdepth, hheld⟩ : ∃ c ∈ callsIn es, c.start.depth = 1 ∧ heldIn c.extent = 1 := by
    decide +kernel
  exact ⟨order, c, hc, hdepth, hheld,
    (renderSlot_balanced (scriptHost 0) tags 2 1 0 w order).1 c hc⟩

/-- A tag that keeps its handle and takes the context out of the cell: somebody else has a handle
when the context is asked back, but there is no copy. -/
theorem renderSlot_heldNotCopied :
    let takes : TagDefinition := ⟨"takes", [.keep, .detach], .context⟩
    let w := World.ofTags [takes] [("t", [.call ⟨3, 0⟩ "takes" [] [] none])]
    let tags : Ventures := fun _ lent vs ns _ =>
      .ofScript ⟨lent, vs, ns⟩ [.keep, .detach] fun a ha => by
        rcases List.mem_pair.mp ha with rfl | rfl
        · exact discreet_keep fun h hh => Option.mem_toList.mpr hh
        · exact discreet_detach fun h hh => Option.mem_toList.mpr hh
    ¬ ∀ c ∈ callsIn (eventsIn (scriptHost 0) tags 1 0 0 w),
      c.finish.tally.deepCopy
        = c.start.tally.deepCopy + (handoffsIn c.extent).countP fun h => h.Held := by
  intro takes w tags
  decide +kernel

end Stencil
