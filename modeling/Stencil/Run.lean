/-
Stencil/Run.lean

Runs: computations that read and change a state and may stop early.  The state
reached so far is kept when a run stops, so what a failing part has done stays
done.

A run stops with a failure, which can be caught, or because it does not finish:
its step budget is used up, or it waits for a lock that nobody gives back.

`Run.exec` runs a run from a state; the equations below say what each way of
building runs does under it, and are all that is needed to reason about them.
-/
import Stencil.Fault

namespace Stencil

/-- Why a run stops before its end. -/
inductive Stop where
  | failed (failure : Failure)
  | unfinished
  deriving DecidableEq, Repr

/-- Whether a stop cannot be caught. -/
def Stop.final : Stop → Bool
  | failed e => !e.fault.catchable
  | unfinished => true

/-- Whether an outcome is a stop that cannot be caught. -/
def cutShort {α : Type} : Except Stop α → Bool
  | .ok _ => false
  | .error e => e.final

/-- Computations over a state. -/
abbrev Run (σ : Type) := ExceptT Stop (StateM σ)

namespace Run

variable {σ τ α β : Type}

/-- The result of a run from a state, and the state it leaves. -/
def exec (act : Run σ α) (s : σ) : Except Stop α × σ := (ExceptT.run act).run s

/-- The run with a given effect. -/
def ofExec (f : σ → Except Stop α × σ) : Run σ α := ExceptT.mk f

/-- Stops with a fault. -/
def fail (f : Fault) : Run σ α := throw (.failed (.of f))

/-- Stops with a failure. -/
def failWith (e : Failure) : Run σ α := throw (.failed e)

/-- Stops without a result. -/
def unfinished : Run σ α := throw .unfinished

/-- The value, or a fault. -/
def ofExcept : Except Fault α → Run σ α
  | .ok a => pure a
  | .error f => fail f

/-- How a run ends, as a value: it does not stop itself. -/
def outcome (act : Run σ α) : Run σ (Except Stop α) :=
  ofExec fun s =>
    let (r, s) := act.exec s
    (.ok r, s)

/-- Ends as a run ended. -/
def resume (r : Except Stop α) : Run σ α := ofExec fun s => (r, s)

/-- Runs `last` after `act`, whether `act` stops or not.  When `last` stops itself, that counts. -/
def ensuring (act : Run σ α) (last : Run σ Unit) : Run σ α :=
  ofExec fun s =>
    let (r, s) := act.exec s
    match last.exec s with
    | (.ok _, s) => (r, s)
    | (.error e, s) => (.error e, s)

/-- Runs `act` and leaves a catchable failure to `handler`. -/
def catching (act : Run σ α) (handler : Failure → Run σ α) : Run σ α :=
  ofExec fun s =>
    match act.exec s with
    | (.error (.failed e), s) =>
      if e.fault.catchable then (handler e).exec s else (.error (.failed e), s)
    | r => r

/-- Runs `mend` when `act` stops, and then stops as `act` did.  When `mend` stops itself, that
counts. -/
def mending (act : Run σ α) (mend : Run σ Unit) : Run σ α :=
  ofExec fun s =>
    match act.exec s with
    | (.ok a, s) => (.ok a, s)
    | (.error e, s) =>
      match mend.exec s with
      | (.ok _, s) => (.error e, s)
      | (.error e, s) => (.error e, s)

/-- Runs on a part of the state. -/
def within (part : σ → τ) (put : τ → σ → σ) (act : Run τ α) : Run σ α :=
  ofExec fun s =>
    let (r, t) := act.exec (part s)
    (r, put t s)

/-! ### Equations -/

@[simp] theorem exec_ofExec (f : σ → Except Stop α × σ) (s : σ) : (ofExec f).exec s = f s := rfl

@[simp] theorem exec_pure (a : α) (s : σ) : (pure a : Run σ α).exec s = (.ok a, s) := rfl

@[simp] theorem exec_throw (e : Stop) (s : σ) : (throw e : Run σ α).exec s = (.error e, s) := rfl

@[simp] theorem exec_fail (f : Fault) (s : σ) :
    (fail f : Run σ α).exec s = (.error (.failed (.of f)), s) := rfl

@[simp] theorem exec_failWith (e : Failure) (s : σ) :
    (failWith e : Run σ α).exec s = (.error (.failed e), s) := rfl

@[simp] theorem exec_unfinished (s : σ) :
    (unfinished : Run σ α).exec s = (.error .unfinished, s) := rfl

@[simp] theorem exec_get (s : σ) : (get : Run σ σ).exec s = (.ok s, s) := rfl

@[simp] theorem exec_set (t s : σ) : (set t : Run σ PUnit).exec s = (.ok ⟨⟩, t) := rfl

@[simp] theorem exec_modify (f : σ → σ) (s : σ) :
    (modify f : Run σ PUnit).exec s = (.ok ⟨⟩, f s) := rfl

theorem exec_bind (act : Run σ α) (f : α → Run σ β) (s : σ) :
    (act >>= f).exec s =
      match act.exec s with
      | (.ok a, s') => (f a).exec s'
      | (.error e, s') => (.error e, s') := by
  show ((ExceptT.bind act f : ExceptT Stop (StateM σ) β) : StateM σ _) s = _
  simp only [ExceptT.bind, ExceptT.mk, exec]
  show (StateT.bind act (ExceptT.bindCont f) : StateM σ _) s = _
  simp only [StateT.bind, ExceptT.run, StateT.run]
  show (match (act s : _ × σ) with | (a, s') => ExceptT.bindCont f a s') = _
  rcases h : (act s : _ × σ) with ⟨a | a, s'⟩ <;> rfl

end Run

end Stencil
