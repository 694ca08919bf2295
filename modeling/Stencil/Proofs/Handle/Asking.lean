/-
Stencil/Proofs/Handle/Asking.lean

Asking through a handle is asking the context.  A *request* is anything that can
be asked of a context by name, with all that a handle offers for it.  Its answer
depends on the context and, where a key may be any value, on the heap; and it
may write to the context.  Asked directly, a request is answered like that
(`Request.exec_direct`).  Asked through a handle it is answered by the context
that the handle opens, or refused, and then nothing changes
(`Request.exec_through`).

A context cannot be gone through by name and has no length, but a handle can:
these two requests are answered by its names (`Request.directly`).

Handles on one cell are used in any order, and others are made and released in
between.  As long as the cell is not consumed, a live handle opens its context
(`Loans.Shares`); so what is told is what the context would have told, and the
context becomes what it would have become (`Use.faithful`).
-/
import Stencil.Proofs.Handle.Count
import Stencil.Proofs.Render.Handover
import Stencil.Proofs.Scope.Evolve
import Stencil.Session.Naming

namespace Stencil

variable {β : Type} {w : World} {l : Loans Value} {h k c : Nat}

/-! ### Work on a context -/

/-- The world after writes to a context. -/
def World.writing (c : Nat) (ws : List Write) (w : World) : World :=
  { w with loans := w.loans.changeContext c (·.writeAll ws) }

@[simp] theorem World.writing_nil (c : Nat) (w : World) : w.writing c [] = w :=
  congrArg (fun l => { w with loans := l }) (Loans.changeContext_eq_self fun _ => rfl)

/-- The work gives a result that depends on the context alone, and does no more to it than
writes. -/
def Answering (work : Nat → Run (Loans Value) β) (r : Context Value → Except Stop β)
    (ws : List Write) : Prop :=
  ∀ c l, (work c).exec l = (r (l.contextAt c), Loans.changeContext c (·.writeAll ws) l)

namespace Answering

variable {work : Nat → Run (Loans Value) β} {r : Context Value → Except Stop β} {ws : List Write}

/-- Work that only looks. -/
theorem of_look (hw : ∀ c l, (work c).exec l = (r (l.contextAt c), l)) : Answering work r [] := by
  intro c l
  rw [hw]
  exact congrArg (Prod.mk _) (Loans.changeContext_eq_self fun _ => rfl).symm

theorem exec_direct (a : Answering work r ws) (c : Nat) (w : World) :
    ((Reach.direct c).withContext work).exec w = (r (w.loans.contextAt c), w.writing c ws) := by
  rw [Reach.withContext, onLoans, Run.exec_within, a c w.loans, World.writing]

theorem exec_through (a : Answering work r ws) (h : Nat) (w : World) :
    ((Reach.through h).withContext work).exec w =
      match w.loans.opens h with
      | .error e => (.error e, w)
      | .ok c => (r (w.loans.contextAt c), w.writing c ws) := by
  rw [Reach.withContext, onLoans, Run.exec_within,
    Loans.exec_locking_opens h r (fun _ x => x.writeAll ws) fun c _ m _ => a c m]
  rcases w.loans.opens h with e | c <;> rfl

end Answering

/-! ### Requests -/

/-- What can be asked of a context by name. -/
inductive Request where
  | lookup (name : String)
  /-- The value of a name, asked for as the item of a key. -/
  | item (name : String)
  | get (name : String) (default : Value)
  | set (name : String) (value : Value)
  /-- Binds a name as the item of a key. -/
  | setItem (name : String) (value : Value)
  /-- Whether a value is a bound name. -/
  | contains (key : Value)
  | names
  /-- Goes through the names. -/
  | iterate
  | count

namespace Request

/-- Asks, directly or through a handle. -/
def run (r : Reach) : Request → Run World Reply
  | lookup n | item n => do
    let v ← r.lookup n
    return .value v
  | get n d => do
    let v ← r.withContext fun c => do
      let l ← MonadState.get
      return (l.contextAt c).get n d
    return .value v
  | set n v | setItem n v => do
    r.withContext fun c => modify (Loans.changeContext c (·.set n v))
    return .done
  | contains v => do
    let b ← r.isBound v
    return .flag b
  | names => do
    let ns ← r.names
    return .names ns
  | iterate => do
    let ns ← r.iterate
    return .names ns
  | count => do
    let n ← r.count
    return .number n

/-- The answer that a context gives. -/
def answer (heap : Heap) : Request → Context Value → Except Stop Reply
  | lookup n, c | item n, c =>
    match c.lookup? n with
    | some v => .ok (.value v)
    | none => .error (.failed (.of (Loans.unbound n)))
  | get n d, c => .ok (.value (c.get n d))
  | set _ _, _ | setItem _ _, _ => .ok .done
  | contains v, c =>
    match heap.requireHashable v with
    | .ok _ => .ok (.flag (c.names.any (·.is heap v)))
    | .error f => .error (.failed (.of f))
  | names, c | iterate, c => .ok (.names c.names)
  | count, c => .ok (.number c.names.length)

/-- What it writes. -/
def writes : Request → List Write
  | set n v | setItem n v => [(n, v)]
  | lookup _ | item _ | get _ _ | contains _ | names | iterate | count => []

/-- Asks a context itself; what only a handle offers is answered by the names. -/
def directly (c : Nat) : Request → Run World Reply
  | iterate => do
    let ns ← (Reach.direct c).names
    return .names ns
  | count => do
    let ns ← (Reach.direct c).names
    return .number ns.length
  | q => q.run (.direct c)

/-! ### Answers -/

theorem answering_lookup (n : String) :
    Answering (Loans.lookupIn · n : Nat → Run (Loans Value) Value)
      (fun x => match x.lookup? n with
        | some v => .ok v
        | none => .error (.failed (.of (Loans.unbound n)))) [] := by
  refine .of_look fun c l => ?_
  rw [Loans.lookupIn, Run.exec_get_bind]
  rcases (l.contextAt c).lookup? n with - | v <;> rfl

theorem answering_get (n : String) (d : Value) :
    Answering (fun c => do
      let l ← MonadState.get
      return (l.contextAt c).get n d : Nat → Run (Loans Value) Value)
      (fun x => .ok (x.get n d)) [] := .of_look fun _ _ => rfl

theorem answering_set (n : String) (v : Value) :
    Answering (fun c => modify (Loans.changeContext c (·.set n v)) : Nat → Run (Loans Value) PUnit)
      (fun _ => .ok ⟨⟩) [(n, v)] := fun _ _ => rfl

theorem answering_names :
    Answering (fun c => do
      let l ← MonadState.get
      return (l.contextAt c).names : Nat → Run (Loans Value) (List Name))
      (fun x => .ok x.names) [] := .of_look fun _ _ => rfl

theorem answering_isBound (heap : Heap) (v : Value) :
    Answering (fun c => do
      Run.ofExcept (heap.requireHashable v)
      let l ← MonadState.get
      return (l.contextAt c).names.any (·.is heap v) : Nat → Run (Loans Value) Bool)
      (fun x => match heap.requireHashable v with
        | .ok _ => .ok (x.names.any (·.is heap v))
        | .error f => .error (.failed (.of f))) [] := by
  refine .of_look fun c l => ?_
  rcases heap.requireHashable v with f | u <;> rfl

/-- Asked directly, a request is answered by the context. -/
theorem exec_directly (q : Request) (c : Nat) (w : World) :
    (q.directly c).exec w =
      (q.answer w.heap (w.loans.contextAt c), w.writing c q.writes) := by
  cases q with
  | lookup n | item n =>
    show (do let v ← (Reach.direct c).lookup n; return .value v : Run World Reply).exec w = _
    rw [Reach.lookup, Run.exec_bind, (answering_lookup n).exec_direct, answer]
    rcases (w.loans.contextAt c).lookup? n with - | v <;> rfl
  | contains v =>
    show (do let b ← (Reach.direct c).isBound v; return .flag b : Run World Reply).exec w = _
    rw [Reach.isBound, bind_assoc, Run.exec_get_bind, Run.exec_bind,
      (answering_isBound w.heap v).exec_direct, answer]
    rcases w.heap.requireHashable v with f | u <;> rfl
  | set n v | setItem n v => rfl
  | get n d | names | iterate | count => exact congrArg (Prod.mk _) (World.writing_nil c w).symm

/-- Asked through a handle, a request is answered by the context that the handle opens, or it is
refused and nothing changes. -/
theorem exec_through (q : Request) (h : Nat) (w : World) :
    (q.run (.through h)).exec w =
      match w.loans.opens h with
      | .error e => (.error e, w)
      | .ok c => (q.answer w.heap (w.loans.contextAt c), w.writing c q.writes) := by
  cases q with
  | lookup n | item n =>
    rw [run, Reach.lookup, Run.exec_bind, (answering_lookup n).exec_through]
    rcases w.loans.opens h with e | c
    · rfl
    · dsimp only
      rw [answer]
      rcases (w.loans.contextAt c).lookup? n with - | v <;> rfl
  | get n d =>
    rw [run, Run.exec_bind, (answering_get n d).exec_through]
    rcases w.loans.opens h with e | c <;> rfl
  | set n v | setItem n v =>
    rw [run, Run.exec_bind, (answering_set n v).exec_through]
    rcases w.loans.opens h with e | c <;> rfl
  | contains v =>
    rw [run, Reach.isBound, bind_assoc, Run.exec_get_bind, Run.exec_bind,
      (answering_isBound w.heap v).exec_through]
    rcases w.loans.opens h with e | c
    · rfl
    · dsimp only
      rw [answer]
      rcases w.heap.requireHashable v with f | u <;> rfl
  | names | iterate =>
    show (do let ns ← (Reach.through h).names; return .names ns : Run World Reply).exec w = _
    rw [Reach.names, Run.exec_bind, answering_names.exec_through]
    rcases w.loans.opens h with e | c <;> rfl
  | count =>
    have hnames : (Loans.names h).exec w.loans = _ :=
      Loans.exec_locking_opens h (fun x => .ok x.names) (fun _ x => x.writeAll [])
        fun c _ m _ => answering_names c m
    rw [run, Reach.count, Run.exec_bind, onLoans, Run.exec_within, Loans.count, Run.exec_bind,
      hnames]
    rcases w.loans.opens h with e | c <;> rfl

end Request

/-! ### Commands -/

/-- Answers with a reply. -/
def Reply.say : Reply → Run World Effect
  | value v => sayValue v
  | names ns => sayNames ns
  | flag b => return .say (.bool b)
  | number n => return .say (.int n)
  | done => return .nothing

/-- The request that a command makes when its data are built, if it is one that only asks. -/
def NameCommand.request? : NameCommand → Option (Run World Request)
  | lookup n => some (return .lookup n)
  | item n => some (return .item n)
  | getOr n d => some do
    let v ← build d
    return .get n v
  | isBound d => some do
    let v ← build d
    return .contains v
  | set n d => some do
    let v ← build d
    return .set n v
  | setItem n d => some do
    let v ← build d
    return .setItem n v
  | names => some (return .names)
  | iterate => some (return .iterate)
  | count => some (return .count)
  | append _ _ | setKey _ _ _ | sameValue _ _ _ => none

/-- Such a command makes its request, and says what it is told. -/
theorem NameCommand.run_of_request {command : NameCommand} {request : Run World Request}
    (e : command.request? = some request) (r : Reach) :
    command.run r = (do
      let q ← request
      let a ← q.run r
      a.say : Run World Effect) := by
  cases command with
  | append | setKey | sameValue => cases e
  | lookup | item | getOr | isBound | set | setItem | names | iterate | count =>
    obtain rfl := Option.some.inj e
    simp only [NameCommand.run, Request.run, Reply.say, bind_assoc, pure_bind]

/-! ### Shared cells -/

/-- A consumed cell holds nothing. -/
theorem Loans.Balanced.context_of_consumed {l : Loans Value} (b : l.Balanced)
    (consumed : (l.cellOf h).consumed = true) : (l.cellOf h).context = none := by
  rcases e : l.cells.get? (l.handleAt h).cell with - | p
  · rw [cellOf, cellAt, e]
    rfl
  · have hp : l.cellOf h = p := cellAt_eq e
    have hholds := b.holds _ p e
    rw [← hp, consumed] at hholds
    simpa using hholds

/-- The cell holds the context as long as anybody has a live handle on it; it is not consumed, and
its lock is free. -/
structure Loans.Shares (l : Loans Value) (k c : Nat) : Prop where
  balanced : l.Balanced
  cell : ∃ q, l.cells.get? k = some q ∧ q.consumed = false ∧ q.locked = false ∧
    (q.context = some c ∨ q.context = none)

namespace Loans.Shares

/-- Any live handle on the cell opens the context. -/
theorem opens (s : l.Shares k c) (live : h ∈ l.live k) : l.opens h = .ok c := by
  obtain ⟨q, ek, hq, hl, hc⟩ := s.cell
  obtain ⟨n, e⟩ := mem_live.mp live
  obtain ⟨q', ek', hpos⟩ := s.balanced.pos e rfl
  obtain rfl := Option.some.inj (ek.symm.trans ek')
  have hholds : q.context = some c := by
    refine hc.resolve_right fun hnone => ?_
    have hsome := (s.balanced.holds k q ek).mpr ⟨hpos, hq⟩
    rw [hnone] at hsome
    cases hsome
  exact (free_of_mem_live live ek hl hholds).opens

theorem changeContext (s : l.Shares k c) (d : Nat) (f : Context Value → Context Value) :
    (Loans.changeContext d f l).Shares k c :=
  ⟨s.balanced.quiet (.of_eq rfl rfl), s.cell⟩

theorem withHandle (s : l.Shares k c) {r : Handle} (e : l.handles.get? h = some r)
    (live : r.released = false) : (l.withHandle r.cell).Shares k c := by
  obtain ⟨q, ek, hq, hl, hc⟩ := s.cell
  refine ⟨s.balanced.withHandle e live, ?_⟩
  show ∃ p, (l.cells.modify r.cell _).get? k = some p ∧ _
  rw [Table.get?_modify, ek]
  split
  · exact ⟨_, rfl, hq, hl, hc⟩
  · exact ⟨q, rfl, hq, hl, hc⟩

theorem withRelease (s : l.Shares k c) (h : Nat) : (l.withRelease h).Shares k c := by
  obtain ⟨q, ek, hq, hl, hc⟩ := s.cell
  refine ⟨s.balanced.withRelease h, ?_⟩
  rcases e : l.handles.get? h with - | r
  · rw [withRelease_of_none e]
    exact s.cell
  rw [cells_withRelease e]
  split
  · exact s.cell
  · rw [Table.get?_modify, ek]
    split
    · refine ⟨q.leave, rfl, hq, hl, ?_⟩
      rw [Cell.leave]
      dsimp only
      split
      · exact .inr rfl
      · exact hc
    · exact ⟨q, rfl, hq, hl, hc⟩

end Loans.Shares

/-! ### Uses -/

/-- What is done with a handle by those who share a context. -/
inductive Use where
  | ask (h : Nat) (q : Request)
  | duplicate (h : Nat)
  | release (h : Nat)

namespace Use

/-- The world after a use, whether it was refused or not. -/
def after (w : World) : Use → World
  | ask h q => ((q.run (.through h)).exec w).2
  | duplicate h => ((onLoans (Loans.duplicate h)).exec w).2
  | release h => ((onLoans (Loans.release h)).exec w).2

/-- The world after uses, one from where the one before left it. -/
def afterAll : List Use → World → World
  | [], w => w
  | u :: us, w => afterAll us (u.after w)

/-- What is told by a use; nothing unless something is asked. -/
def told (w : World) : Use → List (Except Stop Reply)
  | ask h q => [((q.run (.through h)).exec w).1]
  | duplicate _ | release _ => []

/-- What is told by uses, in order. -/
def allTold : List Use → World → List (Except Stop Reply)
  | [], _ => []
  | u :: us, w => u.told w ++ allTold us (u.after w)

/-- What is asked in a use. -/
def request? : Use → Option Request
  | ask _ q => some q
  | duplicate _ | release _ => none

/-- Whatever is asked is asked through a handle that is live on the cell then. -/
def LiveOn (k : Nat) : List Use → World → Prop
  | [], _ => True
  | u :: us, w => (∀ h q, u = ask h q → h ∈ w.loans.live k) ∧ LiveOn k us (u.after w)

theorem allTold_append (us vs : List Use) (w : World) :
    allTold (us ++ vs) w = allTold us w ++ allTold vs (afterAll us w) := by
  induction us generalizing w with
  | nil => rfl
  | cons u us ih =>
    rw [List.cons_append, allTold, ih, allTold, List.append_assoc]
    rfl

end Use

/-- What a context tells when it is asked itself, one request after the other. -/
def Request.allTold (c : Nat) : List Request → World → List (Except Stop Reply)
  | [], _ => []
  | q :: qs, w => ((q.directly c).exec w).1 :: allTold c qs ((q.directly c).exec w).2

/-- The world after it was asked. -/
def Request.afterAll (c : Nat) : List Request → World → World
  | [], w => w
  | q :: qs, w => afterAll c qs ((q.directly c).exec w).2

namespace Use

/-- A use of any handle keeps the cell shared. -/
theorem shares_after (s : w.loans.Shares k c) (u : Use) : (u.after w).loans.Shares k c := by
  cases u with
  | ask h q =>
    rw [after, Request.exec_through]
    rcases w.loans.opens h with e | d
    · exact s
    · exact s.changeContext d _
  | duplicate h =>
    rw [after, onLoans, Run.exec_within, Loans.duplicate]
    rcases hr : (w.loans.handleAt h).released with - | -
    · rcases e : w.loans.handles.get? h with - | r
      · rw [Loans.handleAt, e] at hr
        cases hr
      · rw [Run.exec_bind_ok (Loans.exec_requireLive hr), Run.exec_get_bind, Loans.exec_addHandle]
        rw [Loans.handleAt_eq e] at hr ⊢
        exact s.withHandle e hr
    · rw [Run.exec_bind_error (Loans.exec_requireLive_released hr)]
      exact s
  | release h => exact s.withRelease h

/-- Only what is asked can change a context or the heap. -/
theorem after_of_request?_none {u : Use} (hu : u.request? = none) (w : World) :
    (u.after w).heap = w.heap ∧ (u.after w).loans.contexts = w.loans.contexts := by
  cases u with
  | ask h q => cases hu
  | duplicate h =>
    refine ⟨rfl, ?_⟩
    rw [after, onLoans, Run.exec_within, Loans.duplicate]
    rcases hr : (w.loans.handleAt h).released with - | -
    · rw [Run.exec_bind_ok (Loans.exec_requireLive hr)]
      rfl
    · rw [Run.exec_bind_error (Loans.exec_requireLive_released hr)]
  | release h => exact ⟨rfl, Loans.contexts_withRelease w.loans h⟩

/-- Induction on the uses, beside a world in which the context is asked itself. -/
theorem told_directly {v : World} {us : List Use} (s : w.loans.Shares k c) (live : LiveOn k us w)
    (hheap : v.heap = w.heap) (hcontexts : v.loans.contexts = w.loans.contexts) :
    allTold us w = Request.allTold c (us.filterMap request?) v ∧
      (afterAll us w).loans.contexts
        = (Request.afterAll c (us.filterMap request?) v).loans.contexts ∧
      (afterAll us w).heap = (Request.afterAll c (us.filterMap request?) v).heap ∧
      (afterAll us w).loans.Shares k c := by
  induction us generalizing w v with
  | nil => exact ⟨rfl, hcontexts.symm, hheap.symm, s⟩
  | cons u us ih =>
    obtain ⟨hlive, hrest⟩ := live
    have hs := shares_after s u
    rcases u with ⟨h, q⟩ | h | h
    · have hopens := s.opens (hlive h q rfl)
      have hcontext : v.loans.contextAt c = w.loans.contextAt c := by
        rw [Loans.contextAt, Loans.contextAt, hcontexts]
      have hafter : (ask h q).after w = w.writing c q.writes := by
        rw [after, Request.exec_through, hopens]
      have hdirect := q.exec_directly c v
      rw [hheap, hcontext] at hdirect
      have htold : (ask h q).told w = [((q.directly c).exec v).1] := by
        rw [told, Request.exec_through, hopens, hdirect]
      obtain ⟨h₁, h₂, h₃, h₄⟩ := ih (v := ((q.directly c).exec v).2) hs hrest
        (by rw [hafter, hdirect]; exact hheap)
        (by rw [hafter, hdirect]; exact congrArg (Table.modify · c _) hcontexts)
      refine ⟨?_, h₂, h₃, h₄⟩
      rw [allTold, htold, h₁]
      rfl
    · have hsame := after_of_request?_none (u := duplicate h) rfl w
      exact ih hs hrest (hheap.trans hsame.1.symm) (hcontexts.trans hsame.2.symm)
    · have hsame := after_of_request?_none (u := release h) rfl w
      exact ih hs hrest (hheap.trans hsame.1.symm) (hcontexts.trans hsame.2.symm)

/-- Asking does not add contexts. -/
theorem size_afterAll (c : Nat) (qs : List Request) (w : World) :
    (Request.afterAll c qs w).loans.contexts.size = w.loans.contexts.size := by
  induction qs generalizing w with
  | nil => rfl
  | cons q qs ih =>
    rw [Request.afterAll, ih, Request.exec_directly]
    exact Table.size_modify ..

/-- What one handle binds another finds. -/
theorem told_lookup_set (s : w.loans.Shares k c) {j : Nat} (hh : h ∈ w.loans.live k)
    (hj : j ∈ w.loans.live k) (hlt : c < w.loans.contexts.size) (n : String) (x : Value) :
    (ask j (.lookup n)).told ((ask h (.set n x)).after w) = [.ok (.value x)] := by
  have hafter : (ask h (.set n x)).after w = w.writing c [(n, x)] := by
    rw [after, Request.exec_through, s.opens hh]
    rfl
  have hopens : (w.writing c [(n, x)]).loans.opens j = .ok c := s.opens hj
  have hcontext : (w.writing c [(n, x)]).loans.contextAt c
      = (w.loans.contextAt c).writeAll [(n, x)] :=
    Loans.contextAt_changeContext hlt _
  have hfound : ((w.loans.contextAt c).writeAll [(n, x)]).lookup? n = some x := by
    show ((Bindings.set _ (n : Name) x).get? n).or _ = _
    rw [Bindings.get?_set, if_pos rfl]
    rfl
  rw [hafter, told, Request.exec_through, hopens]
  dsimp only
  rw [Request.answer, hcontext, hfound]

/-- Whatever was done before, a context is shared by a cell that is not consumed and whose lock is
free.  Through live handles of the cell it is asked this and that, while handles are made and
released.  Then what is told is what the context would have told itself, where it may have to be
asked for its names instead; and it and the heap become what they would have become.  Any two live
handles are told the same, and one finds what the other has bound.  What was told stays told.

A released handle is refused, and so is a live one on a consumed cell; then nothing changes. -/
theorem faithful (ds : List Deed) (w : World) :
    let v := Deed.afterAll ds w.unlent
    (∀ k c q us, v.loans.cells.get? k = some q → q.context = some c → q.consumed = false →
      q.locked = false → c < v.loans.contexts.size → LiveOn k us v →
      let requests := us.filterMap request?
      let v' := afterAll us v
      (allTold us v = Request.allTold c requests v ∧
        v'.loans.contexts = (Request.afterAll c requests v).loans.contexts ∧
        v'.heap = (Request.afterAll c requests v).heap) ∧
      (∀ h ∈ v'.loans.live k, ∀ j ∈ v'.loans.live k,
        (∀ x : Request, (x.run (.through j)).exec v' = (x.run (.through h)).exec v') ∧
        ∀ n x, (ask j (.lookup n)).told ((ask h (.set n x)).after v') = [.ok (.value x)]) ∧
      ∀ vs, allTold us v <+: allTold (us ++ vs) v) ∧
    ∀ h, ∀ x : Request,
      ((v.loans.handleAt h).released = true → (x.run (.through h)).exec v =
        (.error (.failed (.of Loans.handleReleased)), v)) ∧
      ((v.loans.handleAt h).released = false → (v.loans.cellOf h).consumed = true →
        (v.loans.cellOf h).locked = false → (x.run (.through h)).exec v =
          (.error (.failed (.of Loans.cellConsumed)), v)) := by
  intro v
  have b : v.loans.Balanced := Deed.balanced_afterAll ds w.balanced_unlent
  refine ⟨fun k c q us ek hc hq hl hlt live => ?_, fun h x => ⟨fun hr => ?_, fun hr hq hl => ?_⟩⟩
  · intro requests v'
    have s : v.loans.Shares k c := ⟨b, q, ek, hq, hl, .inl hc⟩
    obtain ⟨htold, hcontexts, hheap, s'⟩ := told_directly s live (v := v) rfl rfl
    have hlt' : c < v'.loans.contexts.size := by
      rw [hcontexts, size_afterAll]
      exact hlt
    refine ⟨⟨htold, hcontexts, hheap⟩, fun h hh j hj => ⟨fun x => ?_, fun n x => ?_⟩, fun vs => ?_⟩
    · rw [Request.exec_through, Request.exec_through, s'.opens hh, s'.opens hj]
    · exact told_lookup_set s' hh hj hlt' n x
    · rw [allTold_append]
      exact List.prefix_append _ _
  · rw [Request.exec_through, Loans.opens_of_released hr]
  · rw [Request.exec_through, Loans.opens_of_gone hr hl (b.context_of_consumed hq)]

/-- A name is bound through one of two handles, and found through the other when the first is
released. -/
theorem faithful_two_handles :
    let v := Deed.afterAll [.wrap 0, .duplicate 0]
      (World.ofContext (.ofBase (.ofNamed [("x", .int 1)]))).unlent
    let us := [ask 0 (.set "y" (.int 2)), release 0, ask 1 .count, ask 1 (.item "y")]
    LiveOn 0 us v ∧
      allTold us v = Request.allTold 0 [.set "y" (.int 2), .count, .item "y"] v ∧
      allTold us v = [.ok .done, .ok (.number 2), .ok (.value (.int 2))] := by
  intro v us
  have hcell : v.loans.cells.get? 0 = some ⟨some 0, 2, false, false⟩ := by decide +kernel
  have live : LiveOn 0 us v := by
    refine ⟨?_, nofun, ?_, ?_, trivial⟩
    all_goals
      rintro h q ⟨⟩
      exact Loans.mem_live.mpr ⟨1, by decide +kernel⟩
  have hall := (faithful [.wrap 0, .duplicate 0]
    (World.ofContext (.ofBase (.ofNamed [("x", .int 1)])))).1
  have h := hall 0 0 _ us hcell rfl rfl rfl (by decide +kernel) live
  have hcount : ((v.writing 0 [("y", .int 2)]).loans.contextAt 0).names.length = 2 := by
    decide +kernel
  have hfound : ((v.writing 0 [("y", .int 2)]).loans.contextAt 0).lookup? "y" = some (.int 2) := by
    decide +kernel
  have htold : allTold us v = Request.allTold 0 [.set "y" (.int 2), .count, .item "y"] v := h.1.1
  refine ⟨live, htold, ?_⟩
  rw [htold]
  clear h htold hcell live hall
  clear_value v
  simp only [Request.allTold, Request.exec_directly, Request.answer, Request.writes,
    World.writing_nil, hcount, hfound]

end Use

/-- A context itself has no length. -/
theorem Request.exec_count_direct (c : Nat) (w : World) :
    (count.run (.direct c)).exec w = (.error (.failed (.of (noLength "Context"))), w) := rfl

/-- Going through a context asks it for the item of key zero, which it does not have. -/
theorem Request.exec_iterate_direct (c : Nat) (w : World) :
    (iterate.run (.direct c)).exec w = (.error (.failed (.of (.keyError "0"))), w) := rfl

/-- A handle has a number of names and can be gone through, and its context itself cannot. -/
theorem Request.run_direct_refused :
    let v := Deed.afterAll [.wrap 0] (World.ofContext (.ofBase (.ofNamed [("x", .int 1)]))).unlent
    (((count.run (.through 0)).exec v).1 = .ok (.number 1) ∧
      ((count.run (.direct 0)).exec v).1 = .error (.failed (.of (noLength "Context")))) ∧
    (((iterate.run (.through 0)).exec v).1 = .ok (.names ["x"]) ∧
      ((iterate.run (.direct 0)).exec v).1 = .error (.failed (.of (.keyError "0")))) ∧
    ¬ ∀ q : Request, ((q.run (.through 0)).exec v).1 = ((q.run (.direct 0)).exec v).1 := by
  intro v
  have hopens : v.loans.opens 0 = .ok 0 := by decide +kernel
  have hnames : (v.loans.contextAt 0).names = ["x"] := by decide +kernel
  clear_value v
  have hcount : ((count.run (.through 0)).exec v).1 = .ok (.number 1) := by
    rw [exec_through, hopens]
    exact congrArg (fun ns : List Name => Except.ok (Reply.number ns.length)) hnames
  have hiterate : ((iterate.run (.through 0)).exec v).1 = .ok (.names ["x"]) := by
    rw [exec_through, hopens]
    exact congrArg (fun ns => Except.ok (Reply.names ns)) hnames
  rw [exec_count_direct, exec_iterate_direct]
  refine ⟨⟨hcount, rfl⟩, ⟨hiterate, rfl⟩, fun h => ?_⟩
  have hsame := h .count
  rw [hcount, exec_count_direct] at hsame
  cases hsame

end Stencil
