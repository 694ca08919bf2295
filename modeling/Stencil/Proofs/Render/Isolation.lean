/-
Stencil/Proofs/Render/Isolation.lean

What a render does to a context that a tag kept a handle on.  When the call of
the tag has returned, the slot holds a copy, and the context of the handle is
never touched again, whatever is left to render: neither its names nor the
values that they are bound to (`kept_isolated`).

The values are not isolated, though.  A loop that was running when the tag was
called is bound in the kept context too, and the render goes on to move it; so
what is seen of a value stays the same just if no loop, and no generator, that
is reached from it is moved.

Foreign code is civil at any time; later tags leave the kept context alone, and
change no value in place, but may go through loops and generators as the render
itself does.
-/
import Stencil.Proofs.Render.Foreign
import Stencil.Proofs.Render.OnLoan
import Stencil.Proofs.Render.Position

namespace Stencil

/-! ### Calls -/

section Calls

variable {R : World → World → Prop} [IsPreorder World R]

theorem keeps_callTag (hrecords : ∀ (w : World) rs, R w { w with records := rs }) {w : World}
    (name : String) {body : Run World Value} (h : body.Keeps R w) :
    (callTag name body).Keeps R w where
  state := by
    rw [callTag_rest]
    exact trans_of R h.state (hrecords _ _)
  result _ _ _ := trivial

/-- A call of a tag keeps what plain calls and lending keep. -/
theorem keeps_renderTag (hrendering : ∀ (w : World) f, R w (w.changeRendering f))
    (entry : TagEntry) (slot : Nat) (clone : Clone)
    (call : List Action → Option Nat → Run World Value)
    (hplain : ∀ name body w, (callTag name (call body none)).Keeps R w)
    (hlend : ∀ name body w, (lend name slot clone fun lent => call body (some lent)).Keeps R w)
    (w : World) : (renderTag entry slot clone call).Keeps R w := by
  rw [renderTag.eq_def]
  refine .modify_bind (hrendering w _) ?_
  have hshallower : ∀ w, shallower.Keeps R w := fun w =>
    .of_exec rfl (hrendering w _) fun _ _ => trivial
  refine .bind (.keeps_ensuring ?_ fun w _ => hshallower w) fun v w₂ _ _ => .get_bind (.ofExcept _)
  cases entry with
  | filter f => exact .fail _
  | tag t =>
    dsimp only
    split
    · exact hplain t.name t.body _
    · exact hlend t.name t.body _

end Calls

/-- A context on loan is on loan still when civil code is done. -/
theorem Loan.Holds.civil {n : Loan} {l l' : Loans Value} (h : n.Holds l) (c : l.Civil l') :
    n.Holds l' where
  context_lt := h.context_lt
  place_le := Nat.le_trans h.place_le c.contexts
  slot_row := by
    obtain ⟨q, e, hq, hlt⟩ := h.slot_row
    exact ⟨q, c.slots _ q e, hq, Nat.lt_of_lt_of_le hlt c.contexts⟩
  cell_row := by
    obtain ⟨q, e, hq⟩ := h.cell_row
    obtain ⟨q', e', hq' | hq'⟩ := c.cells _ q e
    · exact ⟨q', e', hq'.symm ▸ hq⟩
    · exact ⟨q', e', .inr hq'⟩
  own_row := by
    obtain ⟨q, e, hq⟩ := h.own_row
    obtain ⟨q', e', hq'⟩ := c.handles _ q e
    exact ⟨q', e', hq'.trans hq⟩
  lent_row := by
    obtain ⟨q, e, hq⟩ := h.lent_row
    obtain ⟨q', e', hq'⟩ := c.handles _ q e
    exact ⟨q', e', hq'.trans hq⟩

@[simp] theorem World.loans_startOfCall (slot c : Nat) (w : World) :
    (w.startOfCall slot c).loans = w.loans.lentOut slot c := rfl

@[simp] theorem World.heap_startOfCall (slot c : Nat) (w : World) :
    (w.startOfCall slot c).heap = w.heap := World.heap_changeTally ..

/-! ### Before the call -/

/-- The slot holds a context that is there. -/
def World.Ready (slot : Nat) (w : World) : Prop :=
  ∃ q, w.loans.slots.get? slot = some q ∧ q.context < w.loans.contexts.size

/-- What every render keeps: the slot holds a context, and loops go on over their lists. -/
def Going (slot : Nat) (w w' : World) : Prop :=
  w.Ready slot → w'.Ready slot ∧ w.heap.KeepsLoops w'.heap

instance (slot : Nat) : IsPreorder World (Going slot) where
  refl w h := ⟨h, (Heap.Drift.refl w.heap).keepsLoops⟩
  trans _ _ _ g g' h := by
    obtain ⟨h', k⟩ := g h
    obtain ⟨h'', k'⟩ := g' h'
    exact ⟨h'', k.trans k'⟩

theorem Going.of_heap {slot : Nat} {w : World} {h : Heap} (k : w.heap.KeepsLoops h) :
    Going slot w { w with heap := h } := fun hw => ⟨hw, k⟩

/-- A loop runs over a list, in a world that is ready. -/
def RunsIn (Inv : World → Prop) (items loop : Nat) (w : World) : Prop :=
  Inv w ∧ ∃ p, w.heap.get? loop = some (.loop (some ⟨items, p⟩))

section

variable {host : Host} {r : Renderer}

theorem World.drift_withLoop (items : List Value) (w : World) :
    w.heap.Drift (w.withLoop items).heap := Heap.Drift.trans (.add _ _) (.add _ _)

theorem World.get?_withLoop (items : List Value) (w : World) :
    (w.withLoop items).heap.get? (w.heap.objects.size + 1) =
      some (.loop (some ⟨w.heap.objects.size, 0⟩)) := by
  rw [← Heap.size_add w.heap (.list items)]
  exact Table.get?_add_new ..

/-- Enough for a render to respect a relation that holds of drifts of values. -/
theorem Renderer.Respects.of_drift {Inv : World → Prop} {R : World → World → Prop}
    (filters : ∀ f vs (h : Heap), h.Drift ((host.filter f vs).exec h).2)
    (inv : ∀ {w w'}, Inv w → R w w' → Inv w') (assume : ∀ {w w'}, (Inv w → R w w') → R w w')
    (loops : ∀ {w w' : World}, Inv w → R w w' → w.heap.KeepsLoops w'.heap)
    (heap : ∀ {w : World} {h : Heap}, w.heap.Drift h → R w { w with heap := h })
    (rendering : ∀ (w : World) f, R w (w.changeRendering f))
    (changes : ∀ f w, R w (w.changeIn r.slot f))
    (calls : ∀ entry vs ns w, R w ((renderTag entry r.slot (host.clone r.clone)
      fun body lent => host.call body lent vs ns).exec w).2) :
    r.Respects host Inv R (RunsIn Inv) where
  inv := inv
  assume := assume
  line w line := rendering w _
  filters f vs w := heap (filters f vs w.heap)
  items v w := heap (Heap.keeps_itemsOf v w.heap).state
  begins items w hw := by
    have h := heap (World.drift_withLoop items w)
    exact ⟨h, inv hw h, 0, World.get?_withLoop items w⟩
  turns position hr := by
    obtain ⟨-, p, e⟩ := hr
    exact heap (.put e (.loop ⟨_, p⟩ position))
  runs hr h := by
    obtain ⟨hw, p, e⟩ := hr
    exact ⟨inv hw h, loops hw h _ _ p e⟩
  changes := changes
  calls _ vs ns w := calls _ vs ns w

variable {slot : Nat} {body : List Action} {vs : List Value} {ns : Bindings String Value} {w : World}

theorem keeps_lend_going (civil : host.Civil) (name : String) (slot : Nat) (body : List Action)
    (vs : List Value) (ns : Bindings String Value) (w : World) :
    (lend name slot Copying.deepCopy fun lent => host.call body (some lent) vs ns).Keeps
      (Going slot) w where
  state := by
    rintro ⟨q, e, hlt⟩
    have hloan := Loan.holds_lentOut e hlt
    have hcivil := civil.calls body (some (w.loans.handles.size + 1)) vs ns
      (w.startOfCall slot q.context)
    have hloops := civil.loops body (some (w.loans.handles.size + 1)) vs ns
      (w.startOfCall slot q.context)
    obtain ⟨hback, -⟩ := Loan.lend_back e name (fun lent => host.call body (some lent) vs ns)
      (hloan.civil hcivil)
    rw [World.heap_startOfCall] at hloops
    obtain ⟨q', e', -, hlt'⟩ := (hback.holds (hloan.civil hcivil)).slot_row
    exact ⟨⟨q', e', hlt'⟩, hloops.trans hback.2.keepsLoops⟩
  result _ _ _ := trivial

theorem keeps_call_going (civil : host.Civil) (slot : Nat) (body : List Action)
    (vs : List Value) (ns : Bindings String Value) (w : World) :
    (host.call body none vs ns).Keeps (Going slot) w where
  state := by
    rintro ⟨q, e, hlt⟩
    have hcivil := civil.calls body none vs ns w
    exact ⟨⟨q, hcivil.slots _ q e, Nat.lt_of_lt_of_le hlt hcivil.contexts⟩,
      civil.loops body none vs ns w⟩
  result _ _ _ := trivial

/-- With civil foreign code every part of a render keeps its slot and its loops. -/
theorem respects_going (civil : host.Civil) (hclone : host.clone r.clone = Copying.deepCopy) :
    r.Respects host (World.Ready r.slot) (Going r.slot) (RunsIn (World.Ready r.slot)) := by
  have hrendering : ∀ (w : World) f, Going r.slot w (w.changeRendering f) :=
    fun w f hw => ⟨hw, (Heap.Drift.refl w.heap).keepsLoops⟩
  refine .of_drift civil.filters (fun hw h => (h hw).1) (fun h hw => h hw hw)
    (fun hw h => (h hw).2) (fun d => .of_heap d.keepsLoops) hrendering (fun f w hw => ?_)
    fun entry vs ns w => ?_
  · obtain ⟨q, e, hlt⟩ := hw
    refine ⟨⟨q, e, ?_⟩, (Heap.Drift.refl w.heap).keepsLoops⟩
    show q.context < (w.loans.contexts.modify _ f).size
    rw [Table.size_modify]
    exact hlt
  · have hrecords : ∀ (w : World) rs, Going r.slot w { w with records := rs } :=
      fun w _ hw => ⟨hw, (Heap.Drift.refl w.heap).keepsLoops⟩
    have hplain : ∀ name body w, (callTag name (host.call body none vs ns)).Keeps (Going r.slot) w :=
      fun name body w => keeps_callTag hrecords name (keeps_call_going civil r.slot body vs ns w)
    have hlend := fun name body w => keeps_lend_going civil name r.slot body vs ns w
    rw [hclone]
    exact (keeps_renderTag hrendering entry r.slot Copying.deepCopy
      (fun body lent => host.call body lent vs ns) hplain hlend w).state

/-! ### After the call -/

/-- The cell `k` holds the context `c`, and the slot holds another. -/
structure Kept (slot k c : Nat) (w : World) : Prop where
  shares : w.Shares k c
  context_lt : c < w.loans.contexts.size
  slot_row : ∃ q, w.loans.slots.get? slot = some q ∧ q.context < w.loans.contexts.size ∧
    q.context ≠ c

/-- What every render keeps from then on. -/
def Isolates (slot k c : Nat) (w w' : World) : Prop :=
  Kept slot k c w → Kept slot k c w' ∧ Undisturbed k c w w'

variable {k c : Nat}

instance (slot k c : Nat) : IsPreorder World (Isolates slot k c) where
  refl w h := ⟨h, .refl k c w⟩
  trans _ _ _ i i' h := by
    obtain ⟨h', u⟩ := i h
    obtain ⟨h'', u'⟩ := i' h'
    exact ⟨h'', u.trans u'⟩

theorem Isolates.of_drift {h : Heap} (d : w.heap.Drift h) :
    Isolates slot k c w { w with heap := h } :=
  fun hw => ⟨⟨hw.shares, hw.context_lt, hw.slot_row⟩, rfl, rfl, fun _ _ e _ => e, d⟩

/-- Writing to the context in the slot. -/
theorem isolates_changeIn (f : Context Value → Context Value) (w : World) :
    Isolates slot k c w (w.changeIn slot f) := by
  intro hw
  obtain ⟨q, e, hlt, hne⟩ := hw.slot_row
  have hsize : (w.changeIn slot f).loans.contexts.size = w.loans.contexts.size :=
    Table.size_modify ..
  refine ⟨⟨hw.shares, hsize ▸ hw.context_lt, q, e, hsize ▸ hlt, hne⟩, rfl, ?_,
    fun _ _ e _ => e, .refl w.heap⟩
  refine Table.get?_modify_of_ne _ _ ?_
  rw [Loans.slotAt_eq e]
  exact hne

/-- What is touched around a loan of another context. -/
theorem Loan.Around.undisturbed {n : Loan} {w w' : World} (a : n.Around w.loans w'.loans)
    (d : w.heap.Drift w'.heap) (hk : k ≠ n.cell) (hc : c < w.loans.contexts.size) :
    Undisturbed k c w w' :=
  ⟨a.cells k hk, a.contexts c hc, fun h q e hq => a.handles h q e (hq ▸ hk), d⟩

theorem keeps_lend_isolates (civil : host.Civil) (aside : host.Aside k c) (name : String)
    (slot : Nat) (body : List Action) (vs : List Value) (ns : Bindings String Value) (w : World) :
    (lend name slot Copying.deepCopy fun lent => host.call body (some lent) vs ns).Keeps
      (Isolates slot k c) w where
  state := by
    intro hw
    obtain ⟨q, e, hlt, hne⟩ := hw.slot_row
    obtain ⟨p, ep, hp⟩ := hw.shares
    have hk : k ≠ (Loan.next slot w.loans).cell := Nat.ne_of_lt (Table.lt_size ep)
    have hcontext : (Loan.next slot w.loans).context = q.context :=
      congrArg Slot.context (Loans.slotAt_eq e)
    -- the world when the tag begins, and when its body is done
    have hloan := Loan.holds_lentOut e hlt
    have hbegin : Undisturbed k c w (w.startOfCall slot q.context) := by
      refine (Loan.around_lentOut slot q.context w.loans).undisturbed ?_ hk hw.context_lt
      rw [World.heap_startOfCall]
      exact .refl w.heap
    have hcivil := civil.calls body (some (w.loans.handles.size + 1)) vs ns
      (w.startOfCall slot q.context)
    have hbody : Undisturbed k c (w.startOfCall slot q.context) _ :=
      aside body (some (w.loans.handles.size + 1)) vs ns (w.startOfCall slot q.context)
        ⟨p, hbegin.cell.trans ep, hp⟩ fun i hi => by
          obtain rfl := Option.some.inj hi
          obtain ⟨x, ex, hx⟩ := hloan.lent_row
          have hlent : (w.loans.lentOut slot q.context).handleAt (w.loans.handles.size + 1) = x :=
            Loans.handleAt_eq ex
          rw [World.loans_startOfCall, Loans.cellOf, hlent, hx]
          refine ⟨hk.symm, fun hshared => ?_⟩
          obtain ⟨y, ey, hy⟩ := hloan.cell_row
          rw [Loans.cellAt_eq ey] at hshared
          rw [hcontext] at hy
          rcases hy with hy | hy
          · exact hne (Option.some.inj (hy.symm.trans hshared))
          · cases hy.symm.trans hshared
    -- the way back
    have hdone := hloan.civil hcivil
    obtain ⟨hback, -⟩ := Loan.lend_back e name (fun lent => host.call body (some lent) vs ns) hdone
    have ha := hback.around hdone
    have hlt₁ := Nat.lt_of_lt_of_le hw.context_lt
      (Nat.le_trans (Loan.around_lentOut slot q.context w.loans).contexts_size hcivil.contexts)
    have hend := (hbegin.trans hbody).trans (ha.undisturbed hback.2 hk hlt₁)
    obtain ⟨q', e', hq', hlt'⟩ := (hback.holds hdone).slot_row
    refine ⟨⟨⟨p, hend.cell.trans ep, hp⟩, Nat.lt_of_lt_of_le hlt₁ ha.contexts_size, q', e', hlt', ?_⟩,
      hend⟩
    rcases hq' with hq' | hq'
    · rw [hq', hcontext]
      exact hne
    · exact (Nat.lt_of_lt_of_le hw.context_lt hq').ne'
  result _ _ _ := trivial

/-- A plain call has no handle at all. -/
theorem keeps_call_isolates (civil : host.Civil) (aside : host.Aside k c) (slot : Nat)
    (body : List Action) (vs : List Value) (ns : Bindings String Value) (w : World) :
    (host.call body none vs ns).Keeps (Isolates slot k c) w where
  state := by
    intro hw
    obtain ⟨q, e, hlt, hne⟩ := hw.slot_row
    obtain ⟨p, ep, hp⟩ := hw.shares
    have hcivil := civil.calls body none vs ns w
    have hbody : Undisturbed k c w _ := aside body none vs ns w hw.shares nofun
    refine ⟨⟨⟨p, hbody.cell.trans ep, hp⟩, ?_, q, hcivil.slots _ q e, ?_, hne⟩, hbody⟩
    · exact Nat.lt_of_lt_of_le hw.context_lt hcivil.contexts
    · exact Nat.lt_of_lt_of_le hlt hcivil.contexts
  result _ _ _ := trivial

/-- Every part of a render leaves the kept context alone. -/
theorem respects_isolates (civil : host.Civil) (aside : host.Aside k c)
    (hclone : host.clone r.clone = Copying.deepCopy) :
    r.Respects host (Kept r.slot k c) (Isolates r.slot k c) (RunsIn (Kept r.slot k c)) := by
  have hsame : ∀ (w w' : World), w'.loans = w.loans → w'.heap = w.heap →
      Isolates r.slot k c w w' := by
    intro w w' hl hh hw
    refine ⟨⟨?_, ?_, ?_⟩, ?_, ?_, ?_, ?_⟩
    · rw [World.Shares, hl]
      exact hw.shares
    · exact hl ▸ hw.context_lt
    · exact hl ▸ hw.slot_row
    · rw [hl]
    · rw [hl]
    · exact fun _ _ e _ => hl ▸ e
    · rw [hh]
      exact .refl w.heap
  refine .of_drift civil.filters (fun hw i => (i hw).1) (fun i hw => i hw hw)
    (fun hw i => (i hw).2.heap.keepsLoops) .of_drift (fun w _ => hsame w _ rfl rfl)
    isolates_changeIn fun entry vs ns w => ?_
  have hplain : ∀ name body w,
      (callTag name (host.call body none vs ns)).Keeps (Isolates r.slot k c) w :=
    fun name body w => keeps_callTag (fun w _ => hsame w _ rfl rfl) name
      (keeps_call_isolates civil aside r.slot body vs ns w)
  have hlend := fun name body w => keeps_lend_isolates civil aside name r.slot body vs ns w
  rw [hclone]
  exact (keeps_renderTag (fun w _ => hsame w _ rfl rfl) entry r.slot Copying.deepCopy
    (fun body lent => host.call body lent vs ns) hplain hlend w).state

/-! ### The call -/

/-- A call that gave a text got the context back. -/
theorem renderTag_eq_ok {t : TagDefinition} (ht : t.mode = .context) {clone : Clone}
    {call : List Action → Option Nat → Run World Value} {w w' : World} {text : String}
    (e : (renderTag (.tag t) slot clone call).exec w = (.ok text, w')) :
    let out := (lend t.name slot clone fun lent => call t.body (some lent)).exec w.inCall
    (∃ v, out.1 = .ok v) ∧ w'.loans = out.2.loans := by
  have hrest := exec_renderTag_rest ht slot clone call w
  rw [e] at hrest
  rw [exec_renderTag ht] at e
  dsimp only at e
  obtain ⟨v, s, ev, -⟩ := Run.exec_bind_eq_ok e
  have hloans := congrArg World.loans hrest
  exact ⟨⟨v, congrArg Prod.fst ev⟩, hloans⟩

/-- The call of a context tag returned: from a world in which the call began it gave a text, and
left a world. -/
structure Returns (host : Host) (r : Renderer) (site : CallSite) (w begun : World) (text : String)
    (w' : World) : Prop where
  evaluated : ∃ vs ns w₁ t, (evaluateAll host r r.strict site.args).exec w = (.ok vs, w₁) ∧
    (evaluateNamed host r site.named).exec w₁ = (.ok ns, begun) ∧
    r.tags.get? site.tag = some (.tag t) ∧ t.mode = .context ∧
    (renderTag (.tag t) r.slot (host.clone r.clone)
      fun body lent => host.call body lent vs (.ofList ns)).exec begun = (.ok text, w')

/-- A live handle on a cell that holds a context. -/
structure World.Keeping (h k c : Nat) (w : World) : Prop where
  row : ∃ q, w.loans.handles.get? h = some q ∧ q.cell = k ∧ q.released = false
  shares : w.Shares k c

theorem Returns.exec_eq {site : CallSite} {w begun w' : World} {text : String}
    (h : Returns host r site w begun text w') : (site.run host r).exec w = (.ok text, w') := by
  obtain ⟨vs, ns, w₁, t, e, e', et, -, ecall⟩ := h.evaluated
  rw [CallSite.run, renderCall, et]
  dsimp only
  rw [Run.exec_bind_ok e, Run.exec_bind_ok e', ecall]

/-- Where a tag kept a handle, the slot holds another context than it. -/
theorem Returns.kept {site : CallSite} {w begun w' : World} {text : String} (civil : host.Civil)
    (hclone : host.clone r.clone = Copying.deepCopy) (h : Returns host r site w begun text w')
    (hw : w.Ready r.slot) (shares : w'.Shares begun.loans.cells.size c) :
    Kept r.slot begun.loans.cells.size c w' := by
  obtain ⟨vs, ns, w₁, t, e, e', -, ht, ecall⟩ := h.evaluated
  have hgoing := respects_going (r := r) civil hclone
  have h₁ := (Renderer.Respects.keeps_evaluateAll hgoing r.strict site.args w).state
  have h₂ := (hgoing.keeps_evaluateNamed site.named w₁).state
  rw [e] at h₁
  rw [e'] at h₂
  obtain ⟨q, eq, hlt⟩ := (h₂ (h₁ hw).1).1
  rw [hclone] at ecall
  obtain ⟨⟨v, elend⟩, hloans⟩ := renderTag_eq_ok ht ecall
  rw [World.Shares, hloans] at shares
  -- the loan of the call
  have hloan : (Loan.next r.slot begun.inCall.loans).Holds
      (begun.inCall.startOfCall r.slot q.context).loans := Loan.holds_lentOut eq hlt
  have hdone := hloan.civil (civil.calls t.body (some (begun.loans.handles.size + 1)) vs (.ofList ns)
    (begun.inCall.startOfCall r.slot q.context))
  obtain ⟨hback, hparted⟩ := Loan.lend_back (w := begun.inCall) eq t.name
    (fun lent => host.call t.body (some lent) vs (.ofList ns)) hdone
  have hends := hback.holds hdone
  obtain ⟨p, ep, hp⟩ := shares
  have hc : c = (Loan.next r.slot begun.inCall.loans).context := by
    obtain ⟨x, ex, hx | hx⟩ := hends.cell_row
    · obtain rfl := Option.some.inj (ex.symm.trans ep)
      exact Option.some.inj (hp.symm.trans hx)
    · obtain rfl := Option.some.inj (ex.symm.trans ep)
      cases hx.symm.trans hp
  obtain ⟨q', eq', -, hlt'⟩ := hends.slot_row
  refine ⟨⟨p, hloans ▸ ep, hp⟩, ?_, q', hloans ▸ eq', hloans ▸ hlt', fun hq' => ?_⟩
  · rw [hloans, hc]
    exact Nat.lt_of_lt_of_le hends.context_lt hends.place_le
  · obtain ⟨x, ex, hx⟩ := hparted v elend q' eq' (hq'.trans hc)
    obtain rfl := Option.some.inj (ex.symm.trans ep)
    cases hx.symm.trans hp

/-! ### Isolation -/

/-- A handle answers as before, and only loops and generators may be moved; so what is seen of a
value that it answers is the same just if none of those that are reached from it is. -/
structure Isolated (h : Nat) (w w' : World) : Prop where
  answers : ∀ q : Query, ((q.access h).exec w'.loans).1 = ((q.access h).exec w.loans).1
  heap : w.heap.Drift w'.heap
  sights : ∀ (q : Query) v, ((q.access h).exec w.loans).1 = .ok (.value v) →
    (w'.heap.sight v = w.heap.sight v ↔ ∀ i, w.heap.Reaches v i → w'.heap.get? i = w.heap.get? i)

/-- Questions are answered by the cell of a handle and its context. -/
theorem Query.access_congr_row {l l' : Loans Value} {h : Nat} {q : Handle} {p : Cell}
    (e : l.handles.get? h = some q) (e' : l'.handles.get? h = some q)
    (ek : l.cells.get? q.cell = some p) (ek' : l'.cells.get? q.cell = some p)
    (hcontext : ∀ c, p.context = some c → l'.contexts.get? c = l.contexts.get? c) (x : Query) :
    ((x.access h).exec l').1 = ((x.access h).exec l).1 := by
  have hcell : l.cellOf h = p := Loans.cellOf_eq e rfl ek
  have hopens : l'.opens h = l.opens h := by
    rw [Loans.opens, Loans.opens, hcell, Loans.cellOf_eq e' rfl ek', Loans.handleAt_eq e,
      Loans.handleAt_eq e']
  refine Query.access_congr hopens (fun c ec => ?_) x
  have hc : p.context = some c := hcell ▸ (Loans.opens_eq_ok_iff.mp ec).2.2
  rw [Loans.contextAt, Loans.contextAt, hcontext c hc]

/-- What a render does after a call of a tag that kept a handle. -/
theorem kept_isolated {nodes : List (Node Value)} {site : CallSite} {ks : List Rest}
    {w w₀ begun w₁ : World} {text : String} {h : Nat} (civil : host.Civil)
    (hclone : host.clone r.clone = Copying.deepCopy) (ready : w.Ready r.slot)
    (comes : Comes host r nodes w site ks w₀) (returns : Returns host r site w₀ begun text w₁)
    (keeping : w₁.Keeping h begun.loans.cells.size c)
    (aside : host.Aside begun.loans.cells.size c) :
    (renderNodes host r nodes).exec w = (finishAll host r ks (Run.resume (.ok text))).exec w₁ ∧
      ∀ w₂, Passes host r ks text w₁ w₂ → w₂.Keeping h begun.loans.cells.size c ∧
        Isolated h w₁ w₂ := by
  have hgoing := respects_going (r := r) civil hclone
  obtain ⟨hcome, hks⟩ := hgoing.comes ready comes
  have hready₀ := (hcome ready).1
  have hkept := returns.kept civil hclone hready₀ keeping.shares
  refine ⟨?_, fun w₂ p => ?_⟩
  · rw [comes.exec_eq]
    exact finishAll_congr (returns.exec_eq.trans (Run.exec_resume ..).symm) ks
  · have hcall := (hgoing.keeps_renderCall site.line site.tag site.args site.named w₀).state
    have hexec : (renderCall host r site.line site.tag site.args site.named).exec w₀ = _ :=
      returns.exec_eq
    rw [hexec] at hcall
    have hks₁ : ∀ x ∈ ks, x.Valid (RunsIn (Kept r.slot begun.loans.cells.size c)) w₁ := by
      intro x hx
      have hv := hgoing.valid hks hcall x hx
      cases x with
      | rounds target items loop => exact ⟨hkept, hv.2⟩
      | _ => trivial
    have hafter := (respects_isolates civil aside hclone).passes hkept hks₁ p
    obtain ⟨hkept₂, u⟩ := hafter hkept
    obtain ⟨q, e, hq, hlive⟩ := keeping.row
    obtain ⟨x, ex, hx⟩ := keeping.shares
    have e₂ := u.handles h q e hq
    refine ⟨⟨⟨q, e₂, hq, hlive⟩, hkept₂.shares⟩, fun y => ?_, u.heap, fun _ v _ => u.heap.sight_iff v⟩
    refine Query.access_congr_row e e₂ (hq.symm ▸ ex) (hq.symm ▸ u.cell.trans ex) (fun d hd => ?_) y
    obtain rfl := Option.some.inj (hx.symm.trans hd)
    exact u.context

end

/-! ### A loop that goes on -/

/-- Every tag makes a further handle and leaves it behind. -/
def Host.leaving : Host where
  call _ lent _ _ := (Conduct.duplicate 0 fun _ => .finish (.ok .absent)).run lent.toList
  filter _ _ := pure .absent
  clone _ := Copying.deepCopy
  growth := 0

theorem Host.civil_leaving : Host.leaving.Civil :=
  Host.civil_of_conduct (fun _ _ _ _ => rfl) (fun _ _ _ _ => trivial) fun _ _ h => .refl h

theorem Host.aside_leaving (k c : Nat) : Host.leaving.Aside k c := by
  refine Host.aside_of_conduct (fun _ _ _ _ => rfl) ?_ k c
  intro _ _ _ _
  trivial

/-- A list of two items, bound to a name in the only context. -/
def World.ofTwo : World :=
  { World.ofContext (.ofBase (.ofNamed [("xs", .object 0)])) with
    heap := ⟨⟨#[.list [.int 1, .int 2]]⟩, 0⟩ }

/-- The call of the tag is the body of a loop over the list.  The kept handle shows the loop of the
render itself, which goes on to the second item. -/
theorem kept_isolated_loop_moved :
    let r : Renderer := ⟨0, false, .deep, .empty, .ofList [("k", .tag ⟨"k", [], .context⟩)]⟩
    let site : CallSite := ⟨1, "k", [], []⟩
    let body : List (Node Value) := [.call ⟨1, 0⟩ "k" [] [] none]
    let ks : List Rest := [.nodes [], .scope, .rounds "x" 1 2 body 1 1, .nodes []]
    ∃ w₀ w₁ w₂, Comes .leaving r [.loop ⟨1, 0⟩ "x" (.name ⟨1, 0⟩ "xs") body []] .ofTwo site ks w₀ ∧
      Returns .leaving r site w₀ w₀ "" w₁ ∧ w₁.Keeping 2 0 0 ∧ Passes .leaving r ks "" w₁ w₂ ∧
      Isolated 2 w₁ w₂ ∧ ((Loans.lookup 2 "loop").exec w₁.loans).1 = .ok (.object 2) ∧
      w₁.heap.member? (.object 2) "index" = .ok (some (.nat 1)) ∧
      w₂.heap.member? (.object 2) "index" = .ok (some (.nat 2)) := by
  intro r site body ks
  -- the world at the call, in the first round
  let w₀ : World := (((World.ofTwo.withLoop [.int 1, .int 2]).withTurn 1 2 0).changeIn 0
    (·.push (roundFrame "x" (.int 1) 2))).atLine 1
  have henters : Enters .leaving r (.loop ⟨1, 0⟩ "x" (.name ⟨1, 0⟩ "xs") body [])
      (World.ofTwo.atLine 1) body [.scope, .rounds "x" 1 2 body 1 1] _ :=
    .round rfl rfl (.now rfl)
  have hcomes : Comes .leaving r [.loop ⟨1, 0⟩ "x" (.name ⟨1, 0⟩ "xs") body []] .ofTwo site ks w₀ :=
    .inside henters (.call ⟨1, 0⟩ "k" [] [] none [] _)
  -- the call
  let out := (renderTag (.tag ⟨"k", [], .context⟩) 0 Copying.deepCopy
    fun body lent => Host.leaving.call body lent [] (.ofList [])).exec w₀
  have hout : out.1 = .ok "" := by decide +kernel
  have hreturns : Returns .leaving r site w₀ w₀ "" out.2 :=
    ⟨[], [], w₀, ⟨"k", [], .context⟩, rfl, rfl, rfl, rfl, Prod.ext hout rfl⟩
  have hkeeping : out.2.Keeping 2 w₀.loans.cells.size 0 :=
    ⟨⟨⟨0, false, 1⟩, by decide +kernel, rfl, rfl⟩, ⟨some 0, 1, false, false⟩, by decide +kernel,
      rfl⟩
  have hlookup : ((Loans.lookup 2 "loop").exec out.2.loans).1 = .ok (.object 2) := by decide +kernel
  have hfirst : out.2.heap.member? (.object 2) "index" = .ok (some (.nat 1)) := by decide +kernel
  have hsecond : ((finishAll .leaving r ks (Run.resume (.ok ""))).exec out.2).2.heap.member?
      (.object 2) "index" = .ok (some (.nat 2)) := by decide +kernel
  have hready : World.ofTwo.Ready 0 := ⟨⟨0, false⟩, by decide +kernel, by decide +kernel⟩
  obtain ⟨-, h⟩ := kept_isolated Host.civil_leaving rfl hready hcomes hreturns hkeeping
    (Host.aside_leaving _ _)
  have hpasses : Passes .leaving r ks "" out.2 _ := .done (List.append_nil ks).symm
  exact ⟨w₀, out.2, _, hcomes, hreturns, hkeeping, hpasses, (h _ hpasses).2, hlookup, hfirst, hsecond⟩

end Stencil
