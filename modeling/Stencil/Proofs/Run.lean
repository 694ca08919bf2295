/-
Stencil/Proofs/Run.lean

Reasoning about runs.  The equations of `Stencil.Run` are completed: what each
way of building runs does under `exec`, and what a sequence does once it is
known how its first part ends.

A run *fails* with a failure when it stops with it (`Run.Fails`); of a sequence,
one of the parts does.

A run *leads* from a state along a relation when the state it leaves is related
to the state it starts from, and a result it gives is good there (`Run.Leads`).
For a relation that is reflexive and transitive there is a rule for each way of
building runs, so to know what a long run leaves alone it is enough to look at
the few places where the state is changed.
-/
import Mathlib.Order.Defs.Unbundled
import Stencil.Run

namespace Stencil

namespace Run

variable {σ τ α β : Type}

/-- Runs with the same effect are the same. -/
theorem ext_exec {act act' : Run σ α} (h : ∀ s, act.exec s = act'.exec s) : act = act' := funext h

/-! ### Equations -/

@[simp] theorem exec_ofExcept_ok (a : α) (s : σ) :
    (ofExcept (.ok a) : Run σ α).exec s = (.ok a, s) := rfl

@[simp] theorem exec_ofExcept_error (f : Fault) (s : σ) :
    (ofExcept (.error f) : Run σ α).exec s = (.error (.failed (.of f)), s) := rfl

theorem exec_ofExcept (r : Except Fault α) (s : σ) :
    (ofExcept r : Run σ α).exec s = (r.mapError fun f => .failed (.of f), s) := by
  cases r <;> rfl

@[simp] theorem exec_outcome (act : Run σ α) (s : σ) :
    act.outcome.exec s = (.ok (act.exec s).1, (act.exec s).2) := rfl

@[simp] theorem exec_resume (r : Except Stop α) (s : σ) :
    (resume r : Run σ α).exec s = (r, s) := rfl

@[simp] theorem exec_within (part : σ → τ) (put : τ → σ → σ) (act : Run τ α) (s : σ) :
    (within part put act).exec s = ((act.exec (part s)).1, put (act.exec (part s)).2 s) := rfl

/-! ### Sequences -/

theorem exec_bind_ok {act : Run σ α} {f : α → Run σ β} {s s' : σ} {a : α}
    (h : act.exec s = (.ok a, s')) : (act >>= f).exec s = (f a).exec s' := by
  rw [exec_bind, h]

theorem exec_bind_error {act : Run σ α} {f : α → Run σ β} {s s' : σ} {e : Stop}
    (h : act.exec s = (.error e, s')) : (act >>= f).exec s = (.error e, s') := by
  rw [exec_bind, h]

/-- What the parts of a run that succeeded did. -/
theorem exec_bind_eq_ok {act : Run σ α} {f : α → Run σ β} {s s'' : σ} {b : β}
    (h : (act >>= f).exec s = (.ok b, s'')) :
    ∃ a s', act.exec s = (.ok a, s') ∧ (f a).exec s' = (.ok b, s'') := by
  rw [exec_bind] at h
  rcases e : act.exec s with ⟨f | a, s'⟩
  · rw [e] at h
    cases h
  · rw [e] at h
    exact ⟨a, s', rfl, h⟩

@[simp] theorem exec_pure_bind (a : α) (f : α → Run σ β) (s : σ) :
    (pure a >>= f : Run σ β).exec s = (f a).exec s := exec_bind_ok rfl

@[simp] theorem exec_get_bind (f : σ → Run σ β) (s : σ) :
    ((get : Run σ σ) >>= f).exec s = (f s).exec s := exec_bind_ok rfl

@[simp] theorem exec_set_bind (t : σ) (f : PUnit → Run σ β) (s : σ) :
    ((set t : Run σ PUnit) >>= f).exec s = (f ⟨⟩).exec t := exec_bind_ok rfl

@[simp] theorem exec_modify_bind (g : σ → σ) (f : PUnit → Run σ β) (s : σ) :
    ((modify g : Run σ PUnit) >>= f).exec s = (f ⟨⟩).exec (g s) := exec_bind_ok rfl

@[simp] theorem exec_outcome_bind (act : Run σ α) (f : Except Stop α → Run σ β) (s : σ) :
    (act.outcome >>= f).exec s = (f (act.exec s).1).exec (act.exec s).2 := exec_bind_ok rfl

/-! ### Endings -/

theorem exec_ensuring (act : Run σ α) (last : Run σ Unit) (s : σ) :
    (ensuring act last).exec s =
      match last.exec (act.exec s).2 with
      | (.ok _, s') => ((act.exec s).1, s')
      | (.error e, s') => (.error e, s') := rfl

theorem exec_ensuring_ok {act : Run σ α} {last : Run σ Unit} {s s' : σ}
    (h : last.exec (act.exec s).2 = (.ok (), s')) :
    (ensuring act last).exec s = ((act.exec s).1, s') := by
  rw [exec_ensuring, h]

theorem exec_catching (act : Run σ α) (handler : Failure → Run σ α) (s : σ) :
    (catching act handler).exec s =
      match act.exec s with
      | (.error (.failed e), s') =>
        if e.fault.catchable then (handler e).exec s' else (.error (.failed e), s')
      | r => r := rfl

theorem exec_catching_ok {act : Run σ α} {handler : Failure → Run σ α} {s s' : σ} {a : α}
    (h : act.exec s = (.ok a, s')) : (catching act handler).exec s = (.ok a, s') := by
  rw [exec_catching, h]

theorem exec_mending (act : Run σ α) (mend : Run σ Unit) (s : σ) :
    (mending act mend).exec s =
      match act.exec s with
      | (.ok a, s') => (.ok a, s')
      | (.error e, s') =>
        match mend.exec s' with
        | (.ok _, s'') => (.error e, s'')
        | (.error e', s'') => (.error e', s'') := rfl

theorem exec_mending_ok {act : Run σ α} {mend : Run σ Unit} {s s' : σ} {a : α}
    (h : act.exec s = (.ok a, s')) : (mending act mend).exec s = (.ok a, s') := by
  rw [exec_mending, h]

theorem exec_mending_error {act : Run σ α} {mend : Run σ Unit} {s s' s'' : σ} {e : Stop}
    (h : act.exec s = (.error e, s')) (h' : mend.exec s' = (.ok (), s'')) :
    (mending act mend).exec s = (.error e, s'') := by
  rw [exec_mending, h]
  dsimp only
  rw [h']

/-! ### Runs that fail -/

section Failing

variable {s s' : σ} {e : Failure}

/-- The run stops with a failure. -/
def Fails (act : Run σ α) (s : σ) (e : Failure) : Prop := (act.exec s).1 = .error (.failed e)

theorem Fails.exec {act : Run σ α} (h : act.Fails s e) :
    act.exec s = (.error (.failed e), (act.exec s).2) := Prod.ext h rfl

theorem Fails.unique {act : Run σ α} {e' : Failure} (h : act.Fails s e) (h' : act.Fails s e') :
    e = e' := Stop.failed.inj (Except.error.inj (h.symm.trans h'))

theorem fails_of_exec {act : Run σ α} (h : act.exec s = (.error (.failed e), s')) :
    act.Fails s e := congrArg Prod.fst h

/-- A sequence fails in its first part, or in the second when the first succeeded. -/
theorem fails_bind {act : Run σ α} {f : α → Run σ β} :
    (act >>= f).Fails s e ↔
      act.Fails s e ∨ ∃ a s', act.exec s = (.ok a, s') ∧ (f a).Fails s' e := by
  rw [Fails, Fails, exec_bind]
  rcases h : act.exec s with ⟨r | a, s'⟩
  · simp
  · constructor
    · intro hf
      exact .inr ⟨a, s', rfl, hf⟩
    · rintro (hf | ⟨a', s'', heq, hf⟩)
      · cases hf
      · cases heq
        exact hf

@[simp] theorem not_fails_pure (a : α) : ¬ (pure a : Run σ α).Fails s e := nofun

theorem fails_get_bind {f : σ → Run σ β} :
    ((get : Run σ σ) >>= f).Fails s e ↔ (f s).Fails s e := by
  rw [Fails, exec_get_bind, Fails]

@[simp] theorem fails_fail {f : Fault} : (fail f : Run σ α).Fails s e ↔ e = .of f := by
  rw [Fails, exec_fail]
  constructor
  · intro h
    cases h
    rfl
  · rintro rfl
    rfl

theorem fails_ofExcept {r : Except Fault α} :
    (ofExcept r : Run σ α).Fails s e ↔ ∃ f, r = .error f ∧ e = .of f := by
  cases r with
  | ok a => simp [ofExcept]
  | error f => simp [ofExcept]

theorem exec_ofExcept_eq_ok {r : Except Fault α} {a : α} :
    (ofExcept r : Run σ α).exec s = (.ok a, s') ↔ r = .ok a ∧ s' = s := by
  cases r with
  | ok b => simp [ofExcept, eq_comm]
  | error f => simp [ofExcept]

end Failing

/-! ### Relations along runs -/

/-- The run leaves a state that is related to the state it starts from; its result, if it gives one,
is good in that state. -/
structure Leads (R : σ → σ → Prop) (s : σ) (act : Run σ α) (good : σ → α → Prop) : Prop where
  state : R s (act.exec s).2
  result : ∀ a s', act.exec s = (.ok a, s') → good s' a

/-- What is asked of a run when its result does not matter. -/
abbrev Keeps (R : σ → σ → Prop) (s : σ) (act : Run σ α) : Prop := act.Leads R s fun _ _ => True

namespace Leads

variable {R : σ → σ → Prop} {s s' : σ} {act : Run σ α} {good : σ → α → Prop}

theorem of_exec {r : Except Stop α} (e : act.exec s = (r, s')) (h : R s s')
    (hr : ∀ a, r = .ok a → good s' a) : act.Leads R s good where
  state := by
    rw [e]
    exact h
  result a t e' := by
    obtain ⟨rfl, rfl⟩ := Prod.mk.inj (e.symm.trans e')
    exact hr a rfl

theorem of_ok {a : α} (e : act.exec s = (.ok a, s')) (h : R s s') (ha : good s' a) :
    act.Leads R s good :=
  of_exec e h fun b eb => by
    obtain rfl := Except.ok.inj eb
    exact ha

theorem of_error {f : Stop} (e : act.exec s = (.error f, s')) (h : R s s') :
    act.Leads R s good :=
  of_exec e h nofun

theorem get_bind {f : σ → Run σ β} {good : σ → β → Prop} (h : (f s).Leads R s good) :
    ((MonadState.get : Run σ σ) >>= f).Leads R s good :=
  of_exec (exec_get_bind f s) h.state fun b e => h.result b _ (Prod.ext e rfl)

section Looking

variable [Std.Refl R]

/-- A run that only looks. -/
theorem of_same (h : (act.exec s).2 = s) : act.Keeps R s where
  state := by
    rw [h]
    exact refl_of R s
  result _ _ _ := trivial

theorem pure {a : α} (h : good s a) : (Pure.pure a : Run σ α).Leads R s good :=
  of_ok rfl (refl_of R s) h

theorem fail (f : Fault) : (fail f : Run σ α).Leads R s good := of_error rfl (refl_of R s)

theorem failWith (e : Failure) : (failWith e : Run σ α).Leads R s good :=
  of_error rfl (refl_of R s)

theorem ofExcept (r : Except Fault α) : (ofExcept r).Keeps R s := by
  apply of_same
  rw [exec_ofExcept]

/-- A sequence whose first part only looks. -/
theorem looks_bind {f : α → Run σ β} {good : σ → β → Prop} (h : act.Keeps Eq s)
    (hf : ∀ a, (f a).Leads R s good) : (act >>= f).Leads R s good := by
  have hs := h.state
  rcases e : act.exec s with ⟨r | a, s'⟩ <;> rw [e] at hs <;> obtain rfl := hs
  · exact of_error (exec_bind_error e) (refl_of R s)
  · exact of_exec (exec_bind_ok e) (hf a).state fun b eb => (hf a).result b _ (Prod.ext eb rfl)

end Looking

variable [IsTrans σ R]

theorem bind {f : α → Run σ β} {good' : σ → β → Prop} (h : act.Leads R s good)
    (hf : ∀ a s', R s s' → good s' a → (f a).Leads R s' good') :
    (act >>= f).Leads R s good' := by
  have hs := h.state
  rcases e : act.exec s with ⟨r | a, s'⟩ <;> rw [e] at hs
  · exact of_error (exec_bind_error e) hs
  · have h' := hf a s' hs (h.result a s' e)
    exact of_exec (exec_bind_ok e) (trans_of R hs h'.state)
      fun b eb => h'.result b _ (Prod.ext eb rfl)

/-- A run that first makes a step, and then is another. -/
theorem of_step {act' : Run σ α} (e : act.exec s = act'.exec s') (h : R s s')
    (h' : act'.Leads R s' good) : act.Leads R s good where
  state := by
    rw [e]
    exact trans_of R h h'.state
  result a t ea := h'.result a t (e.symm.trans ea)

theorem modify_bind {g : σ → σ} {f : PUnit → Run σ β} {good : σ → β → Prop} (hg : R s (g s))
    (h : (f ⟨⟩).Leads R (g s) good) : ((modify g : Run σ PUnit) >>= f).Leads R s good :=
  of_step (exec_modify_bind g f s) hg h

theorem set_bind {t : σ} {f : PUnit → Run σ β} {good : σ → β → Prop} (ht : R s t)
    (h : (f ⟨⟩).Leads R t good) : ((MonadState.set t : Run σ PUnit) >>= f).Leads R s good :=
  of_step (exec_set_bind t f s) ht h

/-- The last part keeps what is good of the result. -/
theorem ensuring {last : Run σ Unit} (h : act.Leads R s good)
    (hlast : ∀ s', R s s' → last.Keeps R s')
    (hgood : ∀ a s', R s s' → good s' a → good (last.exec s').2 a) :
    (ensuring act last).Leads R s good := by
  have hs := h.state
  have hl := (hlast _ hs).state
  rcases e : last.exec (act.exec s).2 with ⟨r | u, s'⟩ <;> rw [e] at hl
  · exact of_error (f := r) (by rw [exec_ensuring, e]) (trans_of R hs hl)
  · refine of_exec (by rw [exec_ensuring, e]) (trans_of R hs hl) fun a ea => ?_
    have ha := hgood a _ hs (h.result a _ (Prod.ext ea rfl))
    rw [e] at ha
    exact ha

theorem keeps_ensuring {last : Run σ Unit} (h : act.Keeps R s)
    (hlast : ∀ s', R s s' → last.Keeps R s') : (Run.ensuring act last).Keeps R s :=
  ensuring h hlast fun _ _ _ _ => trivial

theorem catching {handler : Failure → Run σ α} (h : act.Leads R s good)
    (hhandler : ∀ f s', R s s' → (handler f).Leads R s' good) :
    (catching act handler).Leads R s good := by
  have hs := h.state
  rcases e : act.exec s with ⟨(f | -) | a, s'⟩ <;> rw [e] at hs
  · by_cases hf : f.fault.catchable = true
    · have h' := hhandler f s' hs
      refine of_exec (r := ((handler f).exec s').1) ?_ (trans_of R hs h'.state)
        fun a ea => h'.result a _ (Prod.ext ea rfl)
      rw [exec_catching, e]
      dsimp only
      rw [if_pos hf]
    · refine of_error (f := .failed f) ?_ hs
      rw [exec_catching, e]
      dsimp only
      rw [if_neg hf]
  · exact of_error (f := .unfinished) (by rw [exec_catching, e]) hs
  · exact of_ok (exec_catching_ok e) hs (h.result a s' e)

theorem mending {mend : Run σ Unit} (h : act.Leads R s good)
    (hmend : ∀ s', R s s' → mend.Keeps R s') : (mending act mend).Leads R s good := by
  have hs := h.state
  rcases e : act.exec s with ⟨r | a, s'⟩ <;> rw [e] at hs
  · have h' := (hmend s' hs).state
    rcases e' : mend.exec s' with ⟨r' | u, s''⟩ <;> rw [e'] at h'
    · refine of_error (f := r') ?_ (trans_of R hs h')
      rw [exec_mending, e]
      dsimp only
      rw [e']
    · exact of_error (exec_mending_error e e') (trans_of R hs h')
  · exact of_ok (exec_mending_ok e) hs (h.result a s' e)

end Leads

end Run

end Stencil
