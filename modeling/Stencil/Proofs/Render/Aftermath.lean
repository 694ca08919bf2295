/-
Stencil/Proofs/Render/Aftermath.lean

What a call of a tag leaves, if it gives a text.  Whatever the function of the
tag did to the heap and to the context of the slot is still so, and either that
context is in the slot, or one that is a copy of it (`TagEntry.Leaves`); the
copy only where somebody else has a live handle when the context is asked back.
-/
import Stencil.Proofs.Render.Failing
import Stencil.Proofs.Render.Fit

namespace Stencil

variable {host : Host} {r : Renderer} {w w' : World} {vs : List Value}
  {ns : Bindings String Value} {text : String}
  {writes : List Action → Option Nat → List Value → Bindings String Value → World → Nat →
    List Write}

namespace TagDefinition

/-- The world that the function of a tag leaves, for a call from `w`. -/
def left (t : TagDefinition) (host : Host) (slot : Nat) (vs : List Value)
    (ns : Bindings String Value) (w : World) : World :=
  ((t.function host vs ns w).exec (t.entered slot w)).2

/-- The context of the slot, as the function of a tag leaves it, for a call from `w`. -/
def context (t : TagDefinition) (host : Host) (slot : Nat) (vs : List Value)
    (ns : Bindings String Value) (w : World) : Context Value :=
  (t.left host slot vs ns w).loans.contextAt (w.loans.slotAt slot).context

/-- A copy `z` of the context that a tag was lent is made, with the state `s` in the end, because
somebody else has a handle when it is asked back. -/
def Copies (t : TagDefinition) (host : Host) (r : Renderer) (vs : List Value)
    (ns : Bindings String Value) (w : World) (z : Context Value) (s : Copying) : Prop :=
  t.mode = .context ∧
    (t.done host r.slot vs ns w).loans.live w.loans.cells.size ≠ {w.loans.handles.size} ∧
    ((t.context host r.slot vs ns w).copyWith (host.clone r.clone) recordSharing).exec
      ⟨(t.left host r.slot vs ns w).heap, [], [], []⟩ = (.ok z, s)

/-- What a call from `w` leaves on the heap and in the slot. -/
inductive Leaves (t : TagDefinition) (host : Host) (r : Renderer) (vs : List Value)
    (ns : Bindings String Value) (w w' : World) : Prop
  | same (heap : w'.heap = (t.left host r.slot vs ns w).heap)
      (context : w'.contextIn r.slot = t.context host r.slot vs ns w)
  | copy {z : Context Value} {s : Copying} (copies : t.Copies host r vs ns w z s)
      (heap : w'.heap = s.heap) (context : w'.contextIn r.slot = z)

variable {t : TagDefinition} {slot : Nat}

/-- The function of a tag does its writes to the context of the slot. -/
theorem context_eq (tame : host.Tame writes) (f : w.Fit slot) :
    t.context host slot vs ns w =
      (w.contextIn slot).writeAll (callWrites writes slot vs ns w (.tag t)) := by
  rcases ht : t.mode with - | -
  · obtain ⟨x, ex⟩ := Table.exists_get? f.context_lt
    have hx := (tame t.body none vs ns w.inCall f.sound).contexts _ x ex
    rw [context, left, entered, function, lent, callWrites, ht]
    dsimp only
    rw [Loans.contextAt_eq hx, World.contextIn, Loans.contextAt_eq ex]
  · have fcall : w.inCall.Fit slot := f.congr rfl rfl
    have hdone : Done slot _ w.inCall ((host.call t.body (some (w.loans.handles.size + 1)) vs
        ns).exec (w.inCall.startOfCall slot (w.loans.slotAt slot).context)).2 :=
      done_call tame fcall
    rw [context, left, entered, function, lent, callWrites, ht]
    exact hdone.written

/-- The tag gives its handle back, if it has one, and its fault is reported; that changes no value
and no context. -/
theorem endOfCall_eq (name : String) (lent : Nat) (body : Run World Value) (w : World) :
    (w.endOfCall name lent body).heap = (body.exec w).2.heap ∧
      (w.endOfCall name lent body).loans.contexts = (body.exec w).2.loans.contexts := by
  rw [World.endOfCall, callTag_rest, exec_giveBack]
  dsimp only
  split
  · exact ⟨rfl, rfl⟩
  · exact ⟨rfl, Loans.contexts_withLetGo ..⟩

/-- Getting a context back, where that does not fail. -/
theorem getBack_ok {own k c : Nat} {mine : List Nat} {slot : Nat} {clone : Clone} {name : String}
    {u : Unit} (a : AtWork own k c mine w.loans) (hslot : ∃ q, w.loans.slots.get? slot = some q)
    (e : (getBack name slot own clone).exec w = (.ok u, w')) :
    w'.heap = w.heap ∧ w'.contextIn slot = w.loans.contextAt c ∨
      w.loans.live k ≠ {own} ∧ ∃ z s,
        ((w.loans.contextAt c).copyWith clone recordSharing).exec ⟨w.heap, [], [], []⟩ = (.ok z, s) ∧
          w'.heap = s.heap ∧ w'.contextIn slot = z := by
  obtain ⟨q, eq⟩ := hslot
  have back := getBack_refills a name slot clone
  rw [e] at back
  have hlent := back.contextAt_lent a.context_lt
  obtain ⟨x, ex, ⟨alone, rfl⟩ | ⟨shared, o, s, ec, ⟨f, rfl, rfl⟩ | ⟨z, rfl, -, hz⟩⟩⟩ :=
    back.slot_row eq
  · left
    rw [getBack, Run.exec_bind_ok (a.exec_restore_unique alone slot clone)] at e
    obtain rfl := (Prod.mk.inj e).2
    refine ⟨World.heap_changeTally .., ?_⟩
    rw [World.contextIn, Loans.slotAt_eq ex]
    exact hlent
  · -- a copy that stops is no way back
    rw [getBack, Run.exec_bind_error (a.exec_restore_stopped shared slot ec)] at e
    cases e
  · right
    rw [getBack, Run.exec_bind_ok (a.exec_restore_copied shared slot ec)] at e
    obtain rfl := (Prod.mk.inj e).2
    refine ⟨shared, z, s, ec, World.heap_changeTally .., ?_⟩
    rw [World.contextIn, Loans.slotAt_eq ex]
    exact hz

/-- A tag that is lent nothing. -/
theorem leaves_plain (tame : host.Tame writes) (f : w.Fit r.slot) (ht : t.mode = .plain) :
    t.Leaves host r vs ns w ((t.invoke host r vs ns).exec w.inCall).2 := by
  obtain ⟨q, eq⟩ := f.slot_row
  have hentered : t.entered r.slot w = w.inCall := by rw [entered, ht]
  have hslot : (t.left host r.slot vs ns w).loans.slots.get? r.slot = some q := by
    rw [left, hentered]
    exact (tame _ _ vs ns w.inCall f.sound).slots r.slot q eq
  rw [exec_invoke_plain ht, callTag_rest]
  refine .same rfl ?_
  show (t.left host r.slot vs ns w).loans.contextAt
    ((t.left host r.slot vs ns w).loans.slotAt r.slot).context = _
  rw [Loans.slotAt_eq hslot, ← Loans.slotAt_eq eq]
  rfl

/-- A tag that is lent the context of the slot, and gets it back. -/
theorem leaves_context (tame : host.Tame writes) (f : w.Fit r.slot) (ht : t.mode = .context)
    {v : Value} (e : (t.invoke host r vs ns).exec w.inCall = (.ok v, w')) :
    t.Leaves host r vs ns w w' := by
  have hfunction : t.function host vs ns w =
      host.call t.body (some (w.loans.handles.size + 1)) vs ns := by
    rw [function, lent, ht]
  have hentered : t.entered r.slot w =
      w.inCall.startOfCall r.slot (w.loans.slotAt r.slot).context := by rw [entered, ht]
  obtain ⟨ws, d⟩ : ∃ ws, Done r.slot ws w.inCall (t.done host r.slot vs ns w) := by
    have fcall : w.inCall.Fit r.slot := f.congr rfl rfl
    rw [TagDefinition.done, hentered, hfunction]
    exact ⟨_, (done_call tame fcall).endOfCall t.name⟩
  obtain ⟨hheap, hcontexts⟩ := endOfCall_eq t.name (w.loans.handles.size + 1)
    (t.function host vs ns w) (t.entered r.slot w)
  have hcontext : (t.done host r.slot vs ns w).loans.contextAt (w.loans.slotAt r.slot).context
      = t.context host r.slot vs ns w := by
    rw [Loans.contextAt, TagDefinition.done, hcontexts]
    rfl
  rw [exec_invoke_context ht, endCall] at e
  rcases hback : (t.recovery host r w).exec (t.done host r.slot vs ns w) with ⟨f' | u, back⟩ <;>
    rw [hback] at e
  · cases e
  · obtain rfl := (Prod.mk.inj e).2
    have hletGo : ∀ own lent cut,
        World.contextIn { back with loans := back.loans.letGoOf own lent cut } r.slot
          = back.contextIn r.slot := by
      intro own lent cut
      rw [World.contextIn, Loans.slotAt, Loans.slots_letGoOf, Loans.contextAt,
        Loans.contexts_letGoOf]
      rfl
    rcases getBack_ok d.atWork d.slot_row hback with ⟨h, hc⟩ | ⟨shared, z, s, ec, h, hz⟩
    · exact .same (h.trans hheap) ((hletGo _ _ _).trans (hc.trans hcontext))
    · have ec' : ((t.context host r.slot vs ns w).copyWith (host.clone r.clone) recordSharing).exec
          ⟨(t.left host r.slot vs ns w).heap, [], [], []⟩ = (.ok z, s) := by
        rw [← hcontext, left, ← hheap]
        exact ec
      exact .copy ⟨ht, shared, ec'⟩ h ((hletGo _ _ _).trans hz)

end TagDefinition

/-- A call that gives a text is that of a tag. -/
theorem TagEntry.leaves (tame : host.Tame writes) (f : w.Fit r.slot) {entry : TagEntry}
    (e : (entry.render host r vs ns).exec w = (.ok text, w')) :
    ∃ t, entry = .tag t ∧ t.Leaves host r vs ns w w' := by
  cases entry with
  | filter g => cases e
  | tag t =>
    refine ⟨t, rfl, ?_⟩
    rw [exec_render] at e
    rcases einvoke : (t.invoke host r vs ns).exec w.inCall with ⟨f' | v, u⟩ <;> rw [einvoke] at e
    · cases e
    · have hfold : (foldResult v).exec u.outOfCall = (.ok text, w') := e
      rw [foldResult, Run.exec_get_bind, Run.exec_ofExcept] at hfold
      obtain rfl := (Prod.mk.inj hfold).2
      have hleaves : t.Leaves host r vs ns w u := by
        rcases ht : t.mode with - | -
        · have h : t.Leaves host r vs ns w _ := t.leaves_plain tame f ht
          rwa [einvoke] at h
        · exact t.leaves_context tame f ht einvoke
      cases hleaves with
      | same heap context => exact .same heap context
      | copy copies heap context => exact .copy copies heap context

end Stencil
