/-
Stencil/Proofs/Render/Conduct.lean

What a tag does with the handle it was lent.  A tag is foreign code; the
*conduct* of a tag is one call of it, as a tree: the next thing it does with one
of its handles, and how it goes on for each answer.  It reads and writes by the
accessors of a handle or inside a block that holds the lock, makes further
handles, releases them, lets others hold them, does work of its own on values,
and at the end returns a value or raises.  A tree has no endless branch, and
that is all that is assumed: how the tag goes on may depend in any way on what
it was told.

A tag knows its handles by their place among those it has, the one it was lent
first; so it cannot reach a handle that was not given to it.

`Conduct.writes` lists the writes of a call that were not refused, in order.
-/
import Stencil.Proofs.Loan.Locking
import Stencil.Render.World
import Stencil.Value.Unsupported

namespace Stencil

variable {α β σ : Type}

/-- How a run fails, as a value; only a run that does not finish stops this one. -/
def Run.attempt (act : Run σ α) : Run σ (Except Failure α) := do
  match ← act.outcome with
  | .ok a => pure (.ok a)
  | .error (.failed e) => pure (.error e)
  | .error .unfinished => Run.unfinished

theorem Run.exec_attempt (act : Run σ α) (s : σ) :
    act.attempt.exec s =
      match act.exec s with
      | (.ok a, s') => (.ok (.ok a), s')
      | (.error (.failed e), s') => (.ok (.error e), s')
      | (.error .unfinished, s') => (.error .unfinished, s') := by
  rw [Run.attempt, Run.exec_outcome_bind]
  rcases act.exec s with ⟨(e | -) | a, s'⟩ <;> rfl

/-! ### Questions -/

/-- A name that was bound, with its value. -/
abbrev Write := String × Value

/-- The context after writes, made in order. -/
def Context.writeAll (c : Context Value) (writes : List Write) : Context Value :=
  writes.foldl (fun c w => c.set w.1 w.2) c

@[simp] theorem Context.writeAll_nil (c : Context Value) : c.writeAll [] = c := rfl

theorem Context.writeAll_append (c : Context Value) (ws vs : List Write) :
    c.writeAll (ws ++ vs) = (c.writeAll ws).writeAll vs := List.foldl_append

/-- What a tag asks of a context. -/
inductive Query where
  | lookup (name : String)
  | get (name : String) (default : Value)
  | set (name : String) (value : Value)
  | names
  | contains (name : String)
  | count

/-- What it is told. -/
inductive Reply where
  | value (v : Value)
  | names (ns : List Name)
  | flag (b : Bool)
  | number (n : Nat)
  | done

namespace Query

/-- The answer that a context gives. -/
def answer : Query → Context Value → Except Failure Reply
  | lookup n, c =>
    match c.lookup? n with
    | some v => .ok (.value v)
    | none => .error (.of (Loans.unbound n))
  | get n d, c => .ok (.value (c.get n d))
  | set _ _, _ => .ok .done
  | names, c => .ok (.names c.names)
  | contains n, c => .ok (.flag (c.contains n))
  | count, c => .ok (.number c.names.length)

/-- What it writes. -/
def writes : Query → List Write
  | set n v => [(n, v)]
  | lookup _ | get _ _ | names | contains _ | count => []

/-- Asks a context whose lock is held. -/
def inside (c : Nat) : Query → Run (Loans Value) Reply
  | lookup n => do
    let v ← Loans.lookupIn c n
    return .value v
  | get n d => do
    let l ← MonadState.get
    return .value ((l.contextAt c).get n d)
  | set n v => do
    modify (Loans.changeContext c (·.set n v))
    return .done
  | names => do
    let l ← MonadState.get
    return .names (l.contextAt c).names
  | contains n => do
    let l ← MonadState.get
    return .flag ((l.contextAt c).contains n)
  | count => do
    let l ← MonadState.get
    return .number (l.contextAt c).names.length

/-- Asks by an accessor of a handle. -/
def access (h : Nat) : Query → Run (Loans Value) Reply
  | lookup n => do
    let v ← Loans.lookup h n
    return .value v
  | get n d => do
    let v ← Loans.getOr h n d
    return .value v
  | set n v => do
    Loans.setName h n v
    return .done
  | names => do
    let ns ← Loans.names h
    return .names ns
  | contains n => do
    let b ← Loans.contains h n
    return .flag b
  | count => do
    let n ← Loans.count h
    return .number n

/-- Under the lock a question is answered by the context, and writes to it. -/
theorem exec_inside (q : Query) (c : Nat) (l : Loans Value) :
    (q.inside c).exec l =
      ((q.answer (l.contextAt c)).mapError .failed,
        Loans.changeContext c (·.writeAll q.writes) l) := by
  have hsame : Loans.changeContext c (·.writeAll []) l = l :=
    Loans.changeContext_eq_self fun _ => rfl
  cases q with
  | lookup n =>
    rw [inside, answer, writes, Run.exec_bind, Loans.lookupIn, Run.exec_get_bind, hsame]
    rcases (l.contextAt c).lookup? n with - | v <;> rfl
  | set n v => rfl
  | get n d | names | contains n | count => exact congrArg (Prod.mk _) hsame.symm

/-- An accessor asks under the lock. -/
theorem exec_access (q : Query) (h : Nat) (l : Loans Value) :
    (q.access h).exec l = (Loans.locking h q.inside).exec l := by
  cases q with
  | lookup n => exact Loans.exec_locking_bind h _ _ l
  | get n d => exact Loans.exec_locking_bind h _ _ l
  | set n v => exact Loans.exec_locking_bind h _ _ l
  | names => exact Loans.exec_locking_bind h _ _ l
  | contains n => exact Loans.exec_locking_bind h _ _ l
  | count =>
    rw [access, Loans.count, bind_assoc]
    exact Loans.exec_locking_bind h _ _ l

/-- The context that an accessor works on answers it, or the accessor is refused and does nothing. -/
theorem exec_access_opens (q : Query) (h : Nat) (l : Loans Value) :
    (q.access h).exec l =
      match l.opens h with
      | .error e => (.error e, l)
      | .ok c => ((q.answer (l.contextAt c)).mapError .failed,
          Loans.changeContext c (·.writeAll q.writes) l) := by
  rw [exec_access]
  exact Loans.exec_locking_opens h (fun x => (q.answer x).mapError .failed)
    (fun _ y => y.writeAll q.writes) fun c _ m _ => q.exec_inside c m

/-- What is opened alike and holds the same is answered alike. -/
theorem access_congr {l l' : Loans Value} {h h' : Nat} (ho : l'.opens h' = l.opens h)
    (hc : ∀ c, l.opens h = .ok c → l'.contextAt c = l.contextAt c) (q : Query) :
    ((q.access h').exec l').1 = ((q.access h).exec l).1 := by
  rw [exec_access_opens, exec_access_opens, ho]
  rcases eo : l.opens h with e | c
  · rfl
  · dsimp only
    rw [hc c eo]

end Query

/-- What a tag does in a block that holds the lock. -/
inductive Block where
  /-- Leaves the block, normally or by raising. -/
  | leave (r : Except Failure Reply)
  | ask (q : Query) (next : Except Failure Reply → Block)

namespace Block

/-- Works on a context whose lock is held. -/
def inside (c : Nat) : Block → Run (Loans Value) Reply
  | leave r => Run.resume (r.mapError .failed)
  | ask q next => do
    let r ← Run.attempt (q.inside c)
    (next r).inside c

/-- How a block ends that finds a context, and what it writes. -/
def play : Block → Context Value → Except Failure Reply × List Write
  | leave r, _ => (r, [])
  | ask q next, c =>
    let rest := (next (q.answer c)).play (c.writeAll q.writes)
    (rest.1, q.writes ++ rest.2)

/-- The block of one question. -/
def single (q : Query) : Block := ask q leave

theorem exec_single (q : Query) (c : Nat) (l : Loans Value) :
    ((single q).inside c).exec l = (q.inside c).exec l := by
  rw [single, inside, Run.exec_bind, Run.exec_attempt, Query.exec_inside]
  rcases q.answer (l.contextAt c) with e | a <;> rfl

/-- A block does to the context what it plays. -/
theorem exec_inside (b : Block) (c : Nat) (l : Loans Value) (hc : c < l.contexts.size) :
    (b.inside c).exec l =
      ((b.play (l.contextAt c)).1.mapError .failed,
        Loans.changeContext c (·.writeAll (b.play (l.contextAt c)).2) l) := by
  induction b generalizing l with
  | leave r =>
    rw [inside, play, Run.exec_resume]
    exact congrArg (Prod.mk _) (Loans.changeContext_eq_self fun _ => rfl).symm
  | ask q next ih =>
    have hattempt : (Run.attempt (q.inside c)).exec l =
        (.ok (q.answer (l.contextAt c)), Loans.changeContext c (·.writeAll q.writes) l) := by
      rw [Run.exec_attempt, Query.exec_inside]
      rcases q.answer (l.contextAt c) with e | a <;> rfl
    have hsize : c < (Loans.changeContext c (·.writeAll q.writes) l).contexts.size := by
      rw [Loans.changeContext, Table.size_modify]
      exact hc
    rw [inside, play, Run.exec_bind_ok hattempt, ih _ _ hsize,
      Loans.contextAt_changeContext hc, Loans.changeContext_changeContext]
    simp only [Context.writeAll_append]

end Block

/-! ### Conduct -/

/-- One call of a tag. -/
inductive Conduct where
  /-- Returns a value or raises. -/
  | finish (r : Except Failure Value)
  | access (place : Nat) (q : Query) (next : Except Failure Reply → Conduct)
  | lock (place : Nat) (block : Block) (next : Except Failure Reply → Conduct)
  /-- Makes a further handle, which comes last among those it has. -/
  | duplicate (place : Nat) (next : Except Failure Unit → Conduct)
  | release (place : Nat) (next : Conduct)
  /-- Hands a handle to somebody who holds it beyond the call. -/
  | hold (place : Nat) (next : Conduct)
  | letGo (place : Nat) (next : Conduct)
  /-- Looks at values. -/
  | look (next : Heap → Conduct)
  /-- Makes or changes values. -/
  | work (act : Run Heap Value) (next : Except Failure Value → Conduct)

namespace Conduct

/-- The fault of reaching for a handle that the tag does not have. -/
def noSuchHandle : Fault := .foreign "IndexError" "list index out of range"

/-- Works on the handle at a place, if there is one. -/
def reach (mine : List Nat) (place : Nat) (act : Nat → Run (Loans Value) β) : Run World β :=
  match mine[place]? with
  | some h => onLoans (act h)
  | none => Run.fail noSuchHandle

/-- Runs a call of a tag that has some handles. -/
def run : Conduct → List Nat → Run World Value
  | finish r, _ => Run.resume (r.mapError .failed)
  | access place q next, mine => do
    let r ← Run.attempt (reach mine place q.access)
    (next r).run mine
  | lock place block next, mine => do
    let r ← Run.attempt (reach mine place fun h => Loans.locking h block.inside)
    (next r).run mine
  | duplicate place next, mine => do
    let r ← Run.attempt (reach mine place Loans.duplicate)
    match r with
    | .ok h => (next (.ok ())).run (mine ++ [h])
    | .error e => (next (.error e)).run mine
  | release place next, mine => do
    let _ ← Run.attempt (reach mine place Loans.release)
    next.run mine
  | hold place next, mine => do
    let _ ← Run.attempt (reach mine place Loans.hold)
    next.run mine
  | letGo place next, mine => do
    let _ ← Run.attempt (reach mine place Loans.letGo)
    next.run mine
  | look next, mine => do
    let w ← get
    (next w.heap).run mine
  | work act next, mine => do
    let r ← Run.attempt (onHeap act)
    (next r).run mine

/-! ### Writes -/

/-- What a block writes through a handle; nothing when the handle is refused. -/
def written (l : Loans Value) (mine : List Nat) (place : Nat) (block : Block) : List Write :=
  match mine[place]? with
  | none => []
  | some h =>
    if (l.handleAt h).released then []
    else
      match (l.cellOf h).context with
      | some c => (block.play (l.contextAt c)).2
      | none => []

/-- What comes of the rest of a call, once its next step is done. -/
def afterwards (act : Run World β) (rest : β → World → List Write) (w : World) : List Write :=
  match act.exec w with
  | (.ok b, w') => rest b w'
  | (.error _, _) => []

/-- The writes of a call, in order, without those that are refused. -/
def writes : Conduct → List Nat → World → List Write
  | finish _, _, _ => []
  | access place q next, mine, w =>
    written w.loans mine place (.single q) ++
      afterwards (Run.attempt (reach mine place q.access)) (fun r w => (next r).writes mine w) w
  | lock place block next, mine, w =>
    written w.loans mine place block ++
      afterwards (Run.attempt (reach mine place fun h => Loans.locking h block.inside))
        (fun r w => (next r).writes mine w) w
  | duplicate place next, mine, w =>
    afterwards (Run.attempt (reach mine place Loans.duplicate))
      (fun r w =>
        match r with
        | .ok h => (next (.ok ())).writes (mine ++ [h]) w
        | .error e => (next (.error e)).writes mine w) w
  | release place next, mine, w =>
    afterwards (Run.attempt (reach mine place Loans.release)) (fun _ w => next.writes mine w) w
  | hold place next, mine, w =>
    afterwards (Run.attempt (reach mine place Loans.hold)) (fun _ w => next.writes mine w) w
  | letGo place next, mine, w =>
    afterwards (Run.attempt (reach mine place Loans.letGo)) (fun _ w => next.writes mine w) w
  | look next, mine, w => (next w.heap).writes mine w
  | work act next, mine, w =>
    afterwards (Run.attempt (onHeap act)) (fun r w => (next r).writes mine w) w

end Conduct

end Stencil
