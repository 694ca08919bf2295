/-
Stencil/Proofs/Render/Fit.lean

A tag call, seen from its slot.  The foreign code of a host is tame if every
call is (`Host.Tame`).  Then a call of a tag, plain or not, however it ends,
does to the context of the slot the writes of the tag, and copies it at most
(`renderTag_tends`).

`Tends` is what every part of a render is shown to do: it leaves a world that is
fit for the next one, and the context of the slot has evolved by certain writes.
-/
import Stencil.Proofs.Render.Position
import Stencil.Proofs.Render.Tame
import Stencil.Proofs.Scope.Evolve

namespace Stencil

variable {α β : Type} {host : Host} {clone : Clone} {slot : Nat} {w w' w'' : World}
  {ws vs : List Write}

/-! ### Fit worlds -/

/-- The loans make sense, the slot is there, and so are the kept handles. -/
structure World.Fit (slot : Nat) (w : World) : Prop where
  sound : w.loans.Sound
  slot_row : ∃ q, w.loans.slots.get? slot = some q
  kept : ∀ h ∈ w.kept, h < w.loans.handles.size

namespace World.Fit

theorem congr (f : w.Fit slot) (hl : w'.loans = w.loans) (hk : w'.kept = w.kept) : w'.Fit slot :=
  ⟨hl ▸ f.sound, hl ▸ f.slot_row, fun h hh => hl ▸ f.kept h (hk ▸ hh)⟩

theorem context_lt (f : w.Fit slot) : (w.loans.slotAt slot).context < w.loans.contexts.size := by
  obtain ⟨q, e⟩ := f.slot_row
  rw [Loans.slotAt_eq e]
  exact f.sound.slot_lt slot q e

theorem changeIn (f : w.Fit slot) (g : Context Value → Context Value) : (w.changeIn slot g).Fit slot :=
  ⟨f.sound.changeContext _ _, f.slot_row, f.kept⟩

/-- What the slot holds after a change of it. -/
theorem contextIn_changeIn (f : w.Fit slot) (g : Context Value → Context Value) :
    (w.changeIn slot g).contextIn slot = g (w.contextIn slot) :=
  Loans.contextAt_changeContext f.context_lt g

end World.Fit

/-! ### Parts of a render -/

/-- A part of a render that does the writes `ws` from outside all scopes leads from the world `w` to
the world `w'`. -/
structure Tends (clone : Clone) (slot : Nat) (ws : List Write) (w w' : World) : Prop where
  fit : w'.Fit slot
  evolves : Evolves clone (w.contextIn slot) ws (w'.contextIn slot)

namespace Tends

theorem trans (t : Tends clone slot ws w w') (t' : Tends clone slot vs w' w'') :
    Tends clone slot (ws ++ vs) w w'' := ⟨t'.fit, t.evolves.trans t'.evolves⟩

/-- Nothing is done to what is on loan. -/
theorem of_loans (f : w.Fit slot) (hl : w'.loans = w.loans) (hk : w'.kept = w.kept) :
    Tends clone slot [] w w' := by
  refine ⟨f.congr hl hk, ?_⟩
  rw [World.contextIn, World.contextIn, hl]
  exact .rests

theorem refl (f : w.Fit slot) : Tends clone slot [] w w := of_loans f rfl rfl

/-- The last step does nothing to what is on loan. -/
theorem after (t : Tends clone slot ws w w') (hl : w''.loans = w'.loans)
    (hk : w''.kept = w'.kept) : Tends clone slot ws w w'' := by
  have h : Tends clone slot (ws ++ []) w w'' := t.trans (of_loans t.fit hl hk)
  rw [List.append_nil] at h
  exact h

theorem changeRendering (t : Tends clone slot ws w w') (g : Rendering → Rendering) :
    Tends clone slot ws w (w'.changeRendering g) := t.after rfl rfl

/-- The first step does nothing to what is on loan. -/
theorem before (v : World) (f : w.Fit slot) (hl : v.loans = w.loans) (hk : v.kept = w.kept)
    (t : v.Fit slot → Tends clone slot ws v w'') : Tends clone slot ws w w'' :=
  (of_loans f hl hk).trans (t (f.congr hl hk))

/-- A sequence: what its second part writes counts if the first gives a result. -/
theorem bind {act : Run World α} {f : α → Run World β} {rest : α → World → List Write}
    (t : Tends clone slot ws w (act.exec w).2)
    (h : ∀ a w', act.exec w = (.ok a, w') → w'.Fit slot →
      Tends clone slot (rest a w') w' ((f a).exec w').2) :
    Tends clone slot (ws ++ Conduct.afterwards act rest w) w ((act >>= f).exec w).2 := by
  have hfit := t.fit
  rcases e : act.exec w with ⟨r | a, w'⟩ <;> rw [e] at t hfit
  · rw [Run.exec_bind_error e, Conduct.afterwards_error e, List.append_nil]
    exact t
  · rw [Run.exec_bind_ok e, Conduct.afterwards_ok e]
    exact t.trans (h a w' e hfit)

/-- A sequence whose second part writes nothing. -/
theorem bind_nil {act : Run World α} {f : α → Run World β} (t : Tends clone slot ws w (act.exec w).2)
    (h : ∀ a w', act.exec w = (.ok a, w') → w'.Fit slot →
      Tends clone slot [] w' ((f a).exec w').2) :
    Tends clone slot ws w ((act >>= f).exec w).2 := by
  have hall : Tends clone slot (ws ++ Conduct.afterwards act (fun _ _ => []) w) w _ := t.bind h
  have hnil : Conduct.afterwards act (fun _ _ => []) w = [] := by
    rw [Conduct.afterwards]
    split <;> rfl
  rw [hnil, List.append_nil] at hall
  exact hall

end Tends

/-- What is on loan is the same. -/
def SameLoans (w w' : World) : Prop := w'.loans = w.loans ∧ w'.kept = w.kept

instance : IsPreorder World SameLoans where
  refl _ := ⟨rfl, rfl⟩
  trans _ _ _ h h' := ⟨h'.1.trans h.1, h'.2.trans h.2⟩

/-- A sequence whose first part does nothing to what is on loan. -/
theorem Tends.bind_same {act : Run World α} {f : α → Run World β} {rest : α → World → List Write}
    (hw : w.Fit slot) (k : act.Keeps SameLoans w)
    (h : ∀ a w', act.exec w = (.ok a, w') → w'.Fit slot →
      Tends clone slot (rest a w') w' ((f a).exec w').2) :
    Tends clone slot (Conduct.afterwards act rest w) w ((act >>= f).exec w).2 :=
  (Tends.of_loans hw k.state.1 k.state.2).bind h

/-! ### Tame hosts -/

/-- The tags get at contexts by handles only: those they are lent and those that are kept.
`writes` says what a call writes to a context. -/
def Host.Tame (host : Host)
    (writes : List Action → Option Nat → List Value → Bindings String Value → World → Nat →
      List Write) : Prop :=
  ∀ body lent vs ns (w : World), w.loans.Sound →
    Stencil.Tame (lent.toList ++ w.kept) w.loans.handles.size (writes body lent vs ns w) w
      ((host.call body lent vs ns).exec w).2

/-- The host whose tags run errands. -/
def Host.sends (host : Host) (tags : List Action → List Value → Bindings String Value → Errand) :
    Host :=
  { host with call := fun body lent vs ns => (tags body vs ns).run lent.toList }

/-- What these tags write. -/
def errandWrites (tags : List Action → List Value → Bindings String Value → Errand)
    (body : List Action) (lent : Option Nat) (vs : List Value) (ns : Bindings String Value)
    (w : World) (c : Nat) : List Write := (tags body vs ns).writes c lent.toList w

theorem Host.tame_sends (host : Host)
    (tags : List Action → List Value → Bindings String Value → Errand) :
    (host.sends tags).Tame (errandWrites tags) :=
  fun body _ vs ns _ s => (tags body vs ns).run_tame s (Nat.le_refl _) fun _ hh => .inl hh

/-! ### Getting back -/

@[simp] theorem World.kept_changeTally (f : Tally → Tally) (w : World) :
    (w.changeTally f).kept = w.kept := by
  rw [changeTally]
  split <;> rfl

theorem getBack_kept {own k c : Nat} {mine : List Nat} (a : AtWork own k c mine w.loans)
    (name : String) (slot : Nat) (clone : Clone) :
    ((getBack name slot own clone).exec w).2.kept = w.kept := by
  by_cases alone : w.loans.live k = {own}
  · rw [getBack, Run.exec_bind_ok (a.exec_restore_unique alone slot clone)]
    exact World.kept_changeTally ..
  · rcases e : ((w.loans.contextAt c).copyWith clone recordSharing).exec ⟨w.heap, [], [], []⟩
      with ⟨f | copy, s⟩
    · rw [getBack, Run.exec_bind_error (a.exec_restore_stopped alone slot e)]
      rfl
    · rw [getBack, Run.exec_bind_ok (a.exec_restore_copied alone slot e)]
      exact World.kept_changeTally ..

namespace Loans

theorem size_handles_withRelease (l : Loans Value) (h : Nat) :
    (l.withRelease h).handles.size = l.handles.size := by
  rw [withRelease]
  split
  · rfl
  · exact Table.size_modify ..

theorem size_handles_withLetGo (l : Loans Value) (h : Nat) :
    (l.withLetGo h).handles.size = l.handles.size := by
  have hholders : (changeHandle h (fun r => { r with holders := r.holders - 1 }) l).handles.size
      = l.handles.size := Table.size_modify ..
  rw [withLetGo]
  split
  · rw [size_handles_withRelease, hholders]
  · exact hholders

theorem size_handles_letGoOf (own lent : Nat) (cut : Bool) (l : Loans Value) :
    (l.letGoOf own lent cut).handles.size = l.handles.size := by
  rw [letGoOf, size_handles_withLetGo]
  split
  · exact size_handles_withLetGo l lent
  · rfl

end Loans

theorem Refill.size_handles {own k c : Nat} {l : Loans Value}
    (r : Refill clone own k c slot w l) : l.handles.size = w.loans.handles.size := by
  cases r with
  | unique => exact Loans.size_handles_withRelease _ own
  | copied => exact Loans.size_handles_withRelease _ own
  | stopped => rfl

/-- Where a context was lent and is got back, the slot holds it as it was in the end, copied at
most. -/
theorem Refill.evolves {own k c : Nat} {l : Loans Value} {q : Slot}
    (r : Refill clone own k c slot w l) (hc : c < w.loans.contexts.size)
    (e : w.loans.slots.get? slot = some q) :
    Evolves clone (w.loans.contextAt c) [] (l.contextAt (l.slotAt slot).context) := by
  obtain ⟨x, ex, ⟨-, rfl⟩ | ⟨-, o, s, ec, ⟨f, rfl, rfl⟩ | ⟨copy, rfl, -, hcopy⟩⟩⟩ := r.slot_row e
  · rw [Loans.slotAt_eq ex, r.contextAt_lent hc]
    exact .rests
  · rw [Loans.slotAt_eq ex, r.contextAt_lent hc]
    exact .rests
  · rw [Loans.slotAt_eq ex, hcopy]
    exact Evolves.rests.copies ec

/-! ### Calls -/

/-- What the call of a tag writes to the context of the slot. -/
def callWrites
    (writes : List Action → Option Nat → List Value → Bindings String Value → World → Nat →
      List Write)
    (slot : Nat) (vs : List Value) (ns : Bindings String Value) (w : World) :
    TagEntry → List Write
  | .filter _ => []
  | .tag t =>
    let c := (w.loans.slotAt slot).context
    match t.mode with
    | .plain => writes t.body none vs ns w.inCall c
    | .context =>
      writes t.body (some (w.loans.handles.size + 1)) vs ns (w.inCall.startOfCall slot c) c

theorem callTag_loans (name : String) (body : Run World Value) (w : World) :
    ((callTag name body).exec w).2.loans = (body.exec w).2.loans ∧
      ((callTag name body).exec w).2.kept = (body.exec w).2.kept := by
  rw [callTag_rest]
  exact ⟨rfl, rfl⟩

variable {writes : List Action → Option Nat → List Value → Bindings String Value → World → Nat →
  List Write} {body : List Action} {vals : List Value} {named : Bindings String Value}

/-- A tag that is lent nothing. -/
theorem tends_callTag (tame : host.Tame writes) (f : w.Fit slot) (name : String) :
    Tends clone slot (writes body none vals named w (w.loans.slotAt slot).context) w
      ((callTag name (host.call body none vals named)).exec w).2 := by
  have h := tame body none vals named w f.sound
  obtain ⟨q, e⟩ := f.slot_row
  have e' := h.slots slot q e
  have hfit : ((host.call body none vals named).exec w).2.Fit slot := by
    refine ⟨h.sound, ⟨q, e'⟩, fun i hi => ?_⟩
    rcases h.kept i hi with hmem | ⟨-, hlt⟩
    · exact Nat.lt_of_lt_of_le (f.kept i hmem) h.handles
    · exact hlt
  obtain ⟨x, ex⟩ := Table.exists_get? f.context_lt
  obtain ⟨hl, hk⟩ := callTag_loans name (host.call body none vals named) w
  refine Tends.after ⟨hfit, ?_⟩ hl hk
  rw [World.contextIn, World.contextIn, Loans.slotAt_eq e', ← Loans.slotAt_eq e,
    Loans.contextAt_eq ex, Loans.contextAt_eq (h.contexts _ x ex)]
  exact .of_writes x _

/-- A tag is done that was lent the context of the slot from the world `w`, and wrote `ws` to it. -/
structure Done (slot : Nat) (ws : List Write) (w ended : World) : Prop where
  atWork : AtWork w.loans.handles.size w.loans.cells.size (w.loans.slotAt slot).context []
    ended.loans
  sound : ended.loans.Sound
  slot_row : ∃ q, ended.loans.slots.get? slot = some q
  written : ended.loans.contextAt (w.loans.slotAt slot).context = (w.contextIn slot).writeAll ws
  kept : ∀ h ∈ ended.kept, h < ended.loans.handles.size

/-- The body of a tag. -/
theorem done_call (tame : host.Tame writes) (f : w.Fit slot) :
    let c := (w.loans.slotAt slot).context
    let begun := w.startOfCall slot c
    let lent := some (w.loans.handles.size + 1)
    Done slot (writes body lent vals named begun c) w
      ((host.call body lent vals named).exec begun).2 := by
  intro c begun lent
  have hc : c < w.loans.contexts.size := f.context_lt
  obtain ⟨q, e⟩ := f.slot_row
  have hkept : begun.kept = w.kept := World.kept_changeTally ..
  have hsize : begun.loans.handles.size = w.loans.handles.size + 2 := by
    show ((w.loans.handles.add _).add _).size = _
    rw [Table.size_add, Table.size_add]
  have h := tame body lent vals named begun (f.sound.lentOut slot hc)
  rw [hkept] at h
  -- the handle of the render is new, and is not the one that is lent
  have hown : w.loans.handles.size ∉ lent.toList ++ w.kept := by
    intro hmem
    rcases List.mem_cons.mp hmem with hmem | hmem
    · omega
    · exact Nat.lt_irrefl _ (f.kept _ hmem)
  have a : AtWork _ _ c [] begun.loans :=
    (AtWork.lentOut f.sound slot hc).mono fun x hx => nomatch hx
  obtain ⟨x, ex⟩ := Table.exists_get? hc
  have hx : begun.loans.contexts.get? c = some x := (Table.get?_add_of_lt _ hc).trans ex
  have hslot : begun.loans.slots.get? slot = some ⟨w.loans.contexts.size, true⟩ :=
    Table.get?_modify_self _ e
  refine ⟨h.lends _ _ _ hown (by omega) a, h.sound, ⟨_, h.slots slot _ hslot⟩, ?_, fun i hi => ?_⟩
  · rw [Loans.contextAt_eq (h.contexts c x hx), World.contextIn, Loans.contextAt_eq ex]
  · rcases h.kept i hi with hmem | ⟨-, hlt⟩
    · refine Nat.lt_of_lt_of_le ?_ h.handles
      rcases List.mem_cons.mp hmem with rfl | hmem
      · omega
      · have hlt := f.kept i hmem
        omega
    · exact hlt

namespace Done

variable {ended : World}

/-- The tag gives its handle back, and its fault is reported. -/
theorem endOfCall {begun : World} {act : Run World Value} (d : Done slot ws w (act.exec begun).2)
    (name : String) :
    Done slot ws w (begun.endOfCall name (w.loans.handles.size + 1) act) := by
  let lent := w.loans.handles.size + 1
  have hlent : Done slot ws w ((giveBack lent act).exec begun).2 := by
    rw [exec_giveBack]
    split
    · exact d
    · refine ⟨d.atWork.withAnyLetGo (Nat.succ_ne_self _), d.sound.withLetGo lent, ?_, ?_, ?_⟩
      · exact Loans.slots_withLetGo (act.exec begun).2.loans lent ▸ d.slot_row
      · rw [Loans.contextAt, Loans.contexts_withLetGo]
        exact d.written
      · intro i hi
        rw [Loans.size_handles_withLetGo]
        exact d.kept i hi
  obtain ⟨hl, hk⟩ := callTag_loans name (giveBack lent act) begun
  rw [World.endOfCall]
  exact ⟨hl ▸ hlent.atWork, hl ▸ hlent.sound, hl ▸ hlent.slot_row, hl ▸ hlent.written,
    fun i hi => hl ▸ hlent.kept i (hk ▸ hi)⟩

/-- The render gets the context back. -/
theorem tends_endCall (d : Done slot ws w ended) (name : String) (result : Except Stop Value)
    (lent : Nat) :
    Tends clone slot ws w (endCall w.loans.handles.size lent result
      ((getBack name slot w.loans.handles.size clone).exec ended)).2 := by
  have r := getBack_refills d.atWork name slot clone
  have hkept := getBack_kept d.atWork name slot clone
  obtain ⟨q, e⟩ := d.slot_row
  have hlt := d.atWork.context_lt
  obtain ⟨x, ex, -⟩ := r.slot_row e
  have hevolves := r.evolves hlt e
  generalize (getBack name slot w.loans.handles.size clone).exec ended = back at *
  rw [endCall]
  refine ⟨⟨(r.sound d.sound hlt).letGoOf _ _ _, ⟨⟨x, false⟩, ?_⟩, fun i hi => ?_⟩, ?_⟩
  · exact (congrArg (Table.get? · slot) (Loans.slots_letGoOf ..)).trans ex
  · rw [Loans.size_handles_letGoOf, r.size_handles]
    exact d.kept i (hkept ▸ hi)
  · have hin : ∀ (l : Loans Value) own cut,
        (l.letGoOf own lent cut).contextAt ((l.letGoOf own lent cut).slotAt slot).context
          = l.contextAt (l.slotAt slot).context := by
      intro l own cut
      rw [Loans.slotAt, Loans.slots_letGoOf, Loans.contextAt, Loans.contexts_letGoOf]
      rfl
    have h : Evolves clone (w.contextIn slot) ws _ := .of_writes (w.contextIn slot) ws
    rw [← d.written] at h
    have h' := h.trans hevolves
    rw [List.append_nil] at h'
    refine Eq.mp (congrArg (Evolves clone (w.contextIn slot) ws) ?_) h'
    exact (hin back.2.loans _ _).symm

end Done

/-- A tag that is lent the context of the slot. -/
theorem tends_lend (tame : host.Tame writes) (f : w.Fit slot) (name : String) :
    let c := (w.loans.slotAt slot).context
    Tends clone slot
      (writes body (some (w.loans.handles.size + 1)) vals named (w.startOfCall slot c) c) w
      ((lend name slot clone fun lent => host.call body (some lent) vals named).exec w).2 := by
  intro c
  rw [exec_lend]
  exact ((done_call tame f).endOfCall name).tends_endCall name _ _

/-- What a call leaves, whatever becomes of the text. -/
theorem exec_renderTag_state (entry : TagEntry) (slot : Nat) (clone : Clone)
    (call : List Action → Option Nat → Run World Value) (w : World) :
    ((renderTag entry slot clone call).exec w).2 =
      (match entry with
        | .filter _ => w.inCall
        | .tag t =>
          match t.mode with
          | .plain => ((callTag t.name (call t.body none)).exec w.inCall).2
          | .context =>
            ((lend t.name slot clone fun lent => call t.body (some lent)).exec w.inCall).2
      ).changeRendering fun r => { r with tagDepth := r.tagDepth - 1 } := by
  have hfold : ∀ (act : Run World Value) (w : World),
      ((Run.ensuring act shallower >>= foldResult).exec w).2 =
        (act.exec w).2.changeRendering fun r => { r with tagDepth := r.tagDepth - 1 } := by
    intro act w
    rw [Run.exec_bind, Run.exec_ensuring, shallower, Run.exec_modify]
    rcases (act.exec w).1 with e | v
    · rfl
    · dsimp only
      rw [foldResult, Run.exec_get_bind, Run.exec_ofExcept]
  rw [renderTag.eq_def, deeper, Run.exec_modify_bind, ← World.inCall, hfold]
  cases entry with
  | filter f => rfl
  | tag t =>
    dsimp only
    cases t.mode <;> rfl

/-- Calls of tags, of both modes. -/
theorem tends_renderTag (tame : host.Tame writes) (f : w.Fit slot) (entry : TagEntry) :
    Tends clone slot (callWrites writes slot vals named w entry) w
      ((renderTag entry slot clone fun body lent => host.call body lent vals named).exec w).2 := by
  rw [exec_renderTag_state]
  refine Tends.changeRendering (.before w.inCall f rfl rfl fun hcall => ?_) _
  cases entry with
  | filter _ => exact .refl hcall
  | tag t =>
    rw [callWrites]
    dsimp only
    split
    · exact tends_callTag tame hcall t.name
    · exact tends_lend tame hcall t.name

end Stencil
