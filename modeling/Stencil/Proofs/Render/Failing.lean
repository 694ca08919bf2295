/-
Stencil/Proofs/Render/Failing.lean

How a call of a tag fails.  A failure comes out of the tag's function, or out of
getting the lent context back, or the result cannot be written.  Only the first
is reported as a failure of the tag (`Failure.blamed`), and it is what leaves
the call only if the context could be got back: else that failure takes its
place.

`TagEntry.Raises` lists these ways, with the failure `E` that arises and the
failure `F` that leaves the call.  The list is sound and complete
(`TagEntry.Raises.fails`, `TagEntry.raises_of_fails`).
-/
import Stencil.Proofs.Render.Handover
import Stencil.Proofs.Render.Origin

namespace Stencil

variable {host : Host} {r : Renderer} {w w' : World} {o : Origin} {E F : Failure}
  {vs : List Value} {ns : Bindings String Value}

/-! ### Reports -/

/-- How a failure of a tag's function goes on: it is reported, unless it is a template fault or may
not be caught. -/
def Failure.blamed (name : String) (w : World) (E : Failure) : Failure :=
  if E.fault.catchable = true ∧ E.fault.ofTemplates = false then
    .because (.ofTag name E.fault w.reportHere) E
  else E

theorem Failure.blamed_congr (name : String) (h : w.renderings = w'.renderings) (E : Failure) :
    E.blamed name w = E.blamed name w' := by
  have hreport : w.reportHere = w'.reportHere := by
    rw [World.reportHere, World.reportHere, World.rendering?, World.rendering?, h]
  rw [blamed, blamed, hreport]

/-- A run whose failures are handled in one way: it fails as the handler does. -/
theorem Run.fails_catching {σ α : Type} {act : Run σ α} {handler : Failure → Run σ α} {s : σ}
    {e : Failure} : (Run.catching act handler).Fails s e ↔
      ∃ e', act.Fails s e' ∧
        if e'.fault.catchable then (handler e').Fails (act.exec s).2 e else e = e' := by
  rw [Fails, exec_catching]
  rcases h : act.exec s with ⟨(e' | -) | a, s'⟩
  · have hact : ∀ e'', act.Fails s e'' ↔ e' = e'' := fun e'' => by
      rw [Fails, h]
      exact ⟨fun h => by cases h; rfl, fun h => h ▸ rfl⟩
    simp only [hact, exists_eq_left']
    split
    · rfl
    · exact ⟨fun h => by cases h; rfl, fun h => h ▸ rfl⟩
  · simp [Fails, h]
  · simp [Fails, h]

/-- A tag fails by its function. -/
theorem callTag_fails {name : String} {body : Run World Value} :
    (callTag name body).Fails w F ↔
      ∃ E, body.Fails w E ∧ F = E.blamed name (body.exec w).2 := by
  rw [callTag, Run.fails_catching]
  refine exists_congr fun E => and_congr_right fun _ => ?_
  rw [Failure.blamed]
  rcases hc : E.fault.catchable with - | -
  · simp
  · rcases ht : E.fault.ofTemplates with - | -
    · rw [if_pos rfl, if_neg Bool.false_ne_true, if_pos ⟨rfl, rfl⟩]
      exact ⟨fun h => by cases h; rfl, fun h => h ▸ rfl⟩
    · rw [if_pos rfl, if_pos rfl, if_neg (by simp)]
      exact ⟨fun h => by cases h; rfl, fun h => h ▸ rfl⟩

/-- A tag that gives its handle back fails as its body. -/
theorem giveBack_fails {lent : Nat} {body : Run World Value} :
    (giveBack lent body).Fails w E ↔ body.Fails w E := by
  rw [Run.Fails, exec_giveBack, Run.Fails]

theorem renderings_giveBack (lent : Nat) (body : Run World Value) (w : World) :
    ((giveBack lent body).exec w).2.renderings = (body.exec w).2.renderings := by
  rw [exec_giveBack]
  dsimp only
  split <;> rfl

/-! ### Calls of functions -/

namespace TagDefinition

/-- The handle that a tag is lent. -/
def lent (t : TagDefinition) (w : World) : Option Nat :=
  match t.mode with
  | .plain => none
  | .context => some (w.loans.handles.size + 1)

/-- The world in which the function of a tag begins, for a call from `w`. -/
def entered (t : TagDefinition) (slot : Nat) (w : World) : World :=
  match t.mode with
  | .plain => w.inCall
  | .context => w.inCall.startOfCall slot (w.loans.slotAt slot).context

/-- The function of a tag, for a call from `w`. -/
def function (t : TagDefinition) (host : Host) (vs : List Value) (ns : Bindings String Value)
    (w : World) : Run World Value := host.call t.body (t.lent w) vs ns

/-- The call of a tag as far as its result. -/
def invoke (t : TagDefinition) (host : Host) (r : Renderer) (vs : List Value)
    (ns : Bindings String Value) : Run World Value :=
  match t.mode with
  | .plain => callTag t.name (host.call t.body none vs ns)
  | .context => lend t.name r.slot (host.clone r.clone) fun lent => host.call t.body (some lent) vs ns

/-- The world in which the context that a tag was lent is asked back. -/
def done (t : TagDefinition) (host : Host) (slot : Nat) (vs : List Value)
    (ns : Bindings String Value) (w : World) : World :=
  (t.entered slot w).endOfCall t.name (w.loans.handles.size + 1) (t.function host vs ns w)

/-- Getting back the context that a tag was lent by a call from `w`. -/
def recovery (t : TagDefinition) (host : Host) (r : Renderer) (w : World) : Run World Unit :=
  getBack t.name r.slot w.loans.handles.size (host.clone r.clone)

theorem exec_invoke_plain {t : TagDefinition} (ht : t.mode = .plain) :
    (t.invoke host r vs ns).exec w.inCall =
      (callTag t.name (t.function host vs ns w)).exec (t.entered r.slot w) := by
  rw [invoke, function, lent, entered, ht]

theorem exec_invoke_context {t : TagDefinition} (ht : t.mode = .context) :
    (t.invoke host r vs ns).exec w.inCall =
      endCall w.loans.handles.size (w.loans.handles.size + 1)
        ((callTag t.name (giveBack (w.loans.handles.size + 1) (t.function host vs ns w))).exec
          (t.entered r.slot w)).1
        ((t.recovery host r w).exec (t.done host r.slot vs ns w)) := by
  rw [invoke, done, World.endOfCall, recovery, function, lent, entered, ht]
  exact exec_lend ..

end TagDefinition

/-- The world when a call of a tag is left. -/
def World.outOfCall (w : World) : World :=
  w.changeRendering fun r => { r with tagDepth := r.tagDepth - 1 }

/-- The text of a call of an entry. -/
def TagEntry.render (entry : TagEntry) (host : Host) (r : Renderer) (vs : List Value)
    (ns : Bindings String Value) : Run World String :=
  renderTag entry r.slot (host.clone r.clone) fun body lent => host.call body lent vs ns

theorem TagEntry.exec_render (t : TagDefinition) (w : World) :
    (TagEntry.render (.tag t) host r vs ns).exec w =
      let x := (t.invoke host r vs ns).exec w.inCall
      (do let v ← Run.resume x.1; foldResult v).exec x.2.outOfCall := by
  rw [render, renderTag, deeper, Run.exec_modify_bind, ← World.inCall]
  dsimp only
  rw [TagDefinition.invoke]
  rfl

/-! ### Ways to fail -/

/-- A call fails: a failure `E` comes out of `o`, and `F` leaves the call. -/
inductive TagEntry.Raises (host : Host) (r : Renderer) (vs : List Value)
    (ns : Bindings String Value) (w : World) : TagEntry → Origin → Failure → Failure → Prop
  | function {t : TagDefinition} {E : Failure}
      (fails : (t.function host vs ns w).Fails (t.entered r.slot w) E)
      (back : t.mode = .context → ((t.recovery host r w).exec (t.done host r.slot vs ns w)).1 = .ok ()) :
      Raises host r vs ns w (.tag t) (.tag t.name) E
        (E.blamed t.name ((t.function host vs ns w).exec (t.entered r.slot w)).2)
  | handover {t : TagDefinition} {E : Failure} (lends : t.mode = .context)
      (fails : (t.recovery host r w).Fails (t.done host r.slot vs ns w) E) :
      Raises host r vs ns w (.tag t) .handover E E
  | result {t : TagDefinition} {v : Value} {w' : World} {E : Failure}
      (ok : (t.invoke host r vs ns).exec w.inCall = (.ok v, w'))
      (fails : (foldResult v).Fails w'.outOfCall E) :
      Raises host r vs ns w (.tag t) .operation E E
  | bareFilter (f : Filter) :
      Raises host r vs ns w (.filter f) .operation (.of noMode) (.of noMode)

namespace TagEntry

/-- A call fails just where its invocation does, or its result cannot be written. -/
theorem render_fails {t : TagDefinition} :
    (render (.tag t) host r vs ns).Fails w F ↔
      (t.invoke host r vs ns).Fails w.inCall F ∨
        ∃ v w', (t.invoke host r vs ns).exec w.inCall = (.ok v, w') ∧
          (foldResult v).Fails w'.outOfCall F := by
  rw [Run.Fails, exec_render, Run.Fails]
  rcases h : (t.invoke host r vs ns).exec w.inCall with ⟨e | v, w'⟩
  · dsimp only
    rw [Run.exec_bind_error (Run.exec_resume _ _)]
    simp
  · dsimp only
    rw [Run.exec_bind_ok (Run.exec_resume _ _)]
    constructor
    · exact fun h => .inr ⟨v, w', rfl, h⟩
    · rintro (h | ⟨v', w'', e, h⟩)
      · cases h
      · cases e
        exact h

/-- Each of the ways makes the call fail. -/
theorem Raises.fails {entry : TagEntry} (h : entry.Raises host r vs ns w o E F) :
    (entry.render host r vs ns).Fails w F := by
  cases h with
  | @function t E fails back =>
    refine render_fails.mpr (.inl ?_)
    rcases ht : t.mode with - | -
    · rw [Run.Fails, TagDefinition.exec_invoke_plain ht]
      exact callTag_fails.mpr ⟨E, fails, rfl⟩
    · have hcall : (callTag t.name (giveBack (w.loans.handles.size + 1)
          (t.function host vs ns w))).Fails (t.entered r.slot w) _ :=
        callTag_fails.mpr ⟨E, giveBack_fails.mpr fails, rfl⟩
      rw [Run.Fails, TagDefinition.exec_invoke_context ht, endCall, back ht, hcall.exec]
      exact congrArg (fun F => Except.error (Stop.failed F))
        (Failure.blamed_congr _ (renderings_giveBack ..) E)
  | handover lends fails =>
    refine render_fails.mpr (.inl ?_)
    rw [Run.Fails, TagDefinition.exec_invoke_context lends, endCall, fails.exec]
  | result ok fails => exact render_fails.mpr (.inr ⟨_, _, ok, fails⟩)
  | bareFilter f => rfl

/-- A call that fails does so in one of the ways. -/
theorem raises_of_fails {entry : TagEntry} (h : (entry.render host r vs ns).Fails w F) :
    ∃ o E, entry.Raises host r vs ns w o E F := by
  cases entry with
  | filter f =>
    obtain rfl : F = .of noMode := by
      cases h
      rfl
    exact ⟨_, _, .bareFilter f⟩
  | tag t =>
    rcases render_fails.mp h with h | ⟨v, w', ok, h⟩
    · rcases ht : t.mode with - | -
      · rw [Run.Fails, TagDefinition.exec_invoke_plain ht] at h
        obtain ⟨E, hE, rfl⟩ := callTag_fails.mp h
        exact ⟨_, E, .function hE fun hc => by rw [ht] at hc; cases hc⟩
      · rw [Run.Fails, TagDefinition.exec_invoke_context ht, endCall] at h
        rcases hback : ((t.recovery host r w).exec (t.done host r.slot vs ns w)).1 with e | u
        · rw [hback] at h
          exact ⟨_, F, .handover ht (hback.trans (congrArg Except.error (Except.error.inj h)))⟩
        · rw [hback] at h
          obtain ⟨E, hE, rfl⟩ := callTag_fails.mp h
          rw [Failure.blamed_congr _ (renderings_giveBack ..) E]
          exact ⟨_, E, .function (giveBack_fails.mp hE) fun _ => hback⟩
    · exact ⟨_, _, .result ok h⟩

end TagEntry

end Stencil
