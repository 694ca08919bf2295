/-
Stencil/Proofs/Handle/Locks.lean

No lock leaks.  A block that holds the lock of a cell may stay open while other
things are done with handles, and blocks are left in any order, normally or by
an exception.  So a *move* is a deed that opens and leaves no block, a request
through a handle, an attempt to open a block, or the end of one that is open.

How an attempt ends is said once (`Entering`): with the lock taken, or with
everything on loan as it was.  Deeds and requests leave every lock as they find
it (`Deed.sameLocks`, `Request.sameLocks`), so a lock is held just as long as
one block of its cell is open (`Blocks.Exact`).  This is kept by each move and
so by all moves, by induction.

An attempt at a lock that is held ends in time if the time can be held at all; a
greater one is refused.
-/
import Stencil.Proofs.Handle.Asking
import Stencil.Proofs.Handle.Waiting

namespace Stencil

variable {w : World} {l l' l'' : Loans Value} {h k : Nat}

/-! ### Locks that stay -/

/-- The lock of one cell is taken or given back, and no other. -/
theorem Loans.locked_changeCell {q : Cell} (e : l.cells.get? k = some q) (b : Bool) (j : Nat) :
    ((changeCell k ({ · with locked := b }) l).cellAt j).locked =
      if k = j then b else (l.cellAt j).locked := by
  split
  · next same =>
    subst same
    rw [cellAt_eq (Table.get?_modify_self _ e)]
  · next other =>
    rw [cellAt, cellAt, changeCell, Table.get?_modify_of_ne _ _ other]

/-- Every lock is held just if it was. -/
def SameLocks (l l' : Loans Value) : Prop := ∀ k, (l'.cellAt k).locked = (l.cellAt k).locked

namespace SameLocks

theorem refl (l : Loans Value) : SameLocks l l := fun _ => rfl

theorem trans (s : SameLocks l l') (s' : SameLocks l' l'') : SameLocks l l'' :=
  fun k => (s' k).trans (s k)

instance : IsPreorder (Loans Value) SameLocks where
  refl := refl
  trans _ _ _ := trans

theorem of_cells (e : l'.cells = l.cells) : SameLocks l l' := fun k => by
  rw [Loans.cellAt, Loans.cellAt, e]

/-- A cell changes, and its lock does not. -/
theorem changeCell (k : Nat) (f : Cell → Cell) (hf : ∀ q, (f q).locked = q.locked)
    (l : Loans Value) : SameLocks l (Loans.changeCell k f l) := fun j => by
  rcases e : l.cells.get? j with - | q
  · have hnone : (l.cells.modify k f).get? j = none := by
      rw [Table.get?_modify, e, Option.map_none, ite_self]
    rw [Loans.cellAt, Loans.cellAt, Loans.changeCell, hnone, e]
  · have hrow : (Loans.changeCell k f l).cells.get? j = some (if k = j then f q else q) := by
      rw [Loans.changeCell, Table.get?_modify, e]
      split <;> rfl
    rw [Loans.cellAt_eq hrow, Loans.cellAt_eq e]
    split
    · exact hf q
    · rfl

theorem withHandle (k : Nat) (l : Loans Value) : SameLocks l (l.withHandle k) :=
  changeCell k (fun c => { c with references := c.references + 1 }) (fun _ => rfl)
    { l with handles := l.handles.add ⟨k, false, 1⟩ }

/-- The lock of a new cell is free. -/
theorem wrapped (c : Nat) (l : Loans Value) : SameLocks l (l.wrapped c) := by
  have hadd : SameLocks l { l with cells := l.cells.add ⟨some c, 0, false, false⟩ } := by
    intro k
    rw [Loans.cellAt, Loans.cellAt]
    dsimp only
    rw [Table.get?_add]
    split
    · next e =>
      rw [e, Table.get?_eq_none (Nat.le_refl _)]
      rfl
    · rfl
  exact hadd.trans (withHandle _ _)

theorem withRelease (h : Nat) (l : Loans Value) : SameLocks l (l.withRelease h) := by
  rw [Loans.withRelease]
  split
  · exact refl l
  · have hmark : SameLocks l (Loans.changeHandle h ({ · with released := true }) l) := of_cells rfl
    exact hmark.trans (changeCell _ Cell.leave (fun _ => rfl) _)

theorem withLetGo (h : Nat) (l : Loans Value) : SameLocks l (l.withLetGo h) := by
  have hless : SameLocks l
      (Loans.changeHandle h (fun r => { r with holders := r.holders - 1 }) l) := of_cells rfl
  rw [Loans.withLetGo]
  split
  · exact hless.trans (withRelease h _)
  · exact hless

theorem detached (k : Nat) (l : Loans Value) : SameLocks l (l.detached k) :=
  changeCell k (fun r => { r with context := none, consumed := true }) (fun _ => rfl) l

theorem keeps_duplicate (h : Nat) : (Loans.duplicate h).Keeps SameLocks l := by
  have hlive : (Loans.requireLive h).Keeps SameLocks l := by
    rw [Loans.requireLive]
    refine .get_bind ?_
    split
    · exact .fail _
    · exact .pure trivial
  refine .bind hlive fun _ l' _ _ => .get_bind ?_
  exact .of_exec (Loans.exec_addHandle _ l') (withHandle _ l') fun _ _ => trivial

theorem keeps_detach (k : Nat) : (Loans.detach k).Keeps SameLocks l := by
  rw [Loans.detach]
  refine .get_bind ?_
  split
  · exact .set_bind (detached k l) (.pure trivial)
  · exact .fail _

/-- However it ends to get a context back, the locks are as they were. -/
theorem reclaim (h : Nat) (clone : Clone) (w : World) :
    SameLocks w.loans ((Stencil.reclaim h clone).exec w).2.loans := by
  have ends := reclaims w h clone
  generalize ((Stencil.reclaim h clone).exec w).1 = result at ends
  generalize ((Stencil.reclaim h clone).exec w).2 = w' at ends ⊢
  cases ends with
  | held | gone | refused | stopped => exact refl w.loans
  | taken => exact (detached _ _).trans (withRelease h _)
  | @copied c copy s more eo e =>
    rw [World.loans_changeTally]
    have hcells : SameLocks w.loans { w.loans with contexts := w.loans.contexts.add copy } :=
      of_cells rfl
    exact hcells.trans (withRelease h _)

end SameLocks

/-- A request through a handle leaves the locks as they were, whether it is answered or refused. -/
theorem Request.sameLocks (q : Request) (h : Nat) (w : World) :
    SameLocks w.loans ((q.run (.through h)).exec w).2.loans := by
  rw [exec_through]
  rcases w.loans.opens h with e | c
  · exact .refl w.loans
  · exact .of_cells rfl

/-- What opens and leaves no block. -/
def Deed.Apart : Deed → Prop
  | enter _ _ | leave _ => False
  | wrap _ | duplicate _ | release _ | hold _ | letGo _ | access _ _ | change _ _ | detach _
  | reclaim _ _ => True

/-- Such a deed leaves the locks as they were. -/
theorem Deed.sameLocks {d : Deed} (apart : d.Apart) (w : World) :
    SameLocks w.loans (d.after w).loans := by
  have husing : ∀ {β : Type} (h : Nat) (act : Run World β),
      SameLocks w.loans (act.exec w).2.loans → SameLocks w.loans (w.using h act).loans := by
    intro β h act hact
    rw [World.using]
    split
    · exact hact
    · exact .refl w.loans
  cases d with
  | wrap c => exact .wrapped c w.loans
  | duplicate h => exact husing h _ (SameLocks.keeps_duplicate h).state
  | release h => exact husing h _ (.withRelease h w.loans)
  | hold h => exact husing h _ (.of_cells rfl)
  | letGo h =>
    refine husing h _ ?_
    rw [onLoans, Run.exec_within, Loans.exec_letGo]
    exact .withLetGo h w.loans
  | access h q =>
    refine husing h _ ?_
    rw [onLoans, Run.exec_within, q.exec_access_opens]
    rcases w.loans.opens h with e | c
    · exact .refl w.loans
    · exact .of_cells rfl
  | enter | leave => exact apart.elim
  | change c f => exact .of_cells rfl
  | detach h => exact husing h _ (SameLocks.keeps_detach _).state
  | reclaim h clone => exact husing h _ (.reclaim h clone w)

/-! ### Attempts -/

/-- How it ends to wait for a lock that is not given back. -/
def Patience.runOut : Patience → Stop
  | forever => .unfinished
  | upTo seconds => .failed (.of (Loans.lockTimeout seconds))

/-- How an attempt to open a block ends, and what it leaves on loan. -/
inductive Entering (l : Loans Value) (h : Nat) (patience : Patience) :
    Except Stop Nat → Loans Value → Prop
  | refused (gone : (l.handleAt h).released = true) :
      Entering l h patience (.error (.failed (.of Loans.handleReleased))) l
  | held (live : (l.handleAt h).released = false) (lock : (l.cellOf h).locked = true) :
      Entering l h patience (.error patience.runOut) l
  | gone (live : (l.handleAt h).released = false) (free : (l.cellOf h).locked = false)
      (gone : (l.cellOf h).context = none) :
      Entering l h patience (.error (.failed (.of Loans.cellConsumed))) l
  | opened {c : Nat} (live : (l.handleAt h).released = false) (free : (l.cellOf h).locked = false)
      (holds : (l.cellOf h).context = some c) :
      Entering l h patience (.ok c) (l.lockedAt (l.handleAt h).cell)

theorem entering_of_exec {h : Nat} {patience : Patience} {r : Except Stop Nat}
    (e : (Loans.enter h patience).exec l = (r, l')) : Entering l h patience r l' := by
  have hends : ∀ {r' m}, (Loans.enter h patience).exec l = (r', m) →
      Entering l h patience r' m → Entering l h patience r l' := by
    intro r' m e' ends
    obtain ⟨rfl, rfl⟩ := Prod.mk.inj (e.symm.trans e')
    exact ends
  rcases hr : (l.handleAt h).released with - | -
  · rcases hl : (l.cellOf h).locked with - | -
    · have hlock := Loans.exec_acquire hr rfl hl patience
      rcases hc : (l.cellOf h).context with - | c
      · -- the lock that was taken is given back
        have hnone : (Loans.contextInside (l.handleAt h).cell).exec
            (l.lockedAt (l.handleAt h).cell) = (.error (.failed (.of Loans.cellConsumed)),
              l.lockedAt (l.handleAt h).cell) := by
          rw [Loans.cellOf] at hc
          rw [Loans.contextInside, Run.exec_get_bind, Loans.context_lockedAt, hc]
          rfl
        have hcaught : (Failure.of Loans.cellConsumed).fault.catchable = true := rfl
        refine hends ?_ (.gone hr hl hc)
        rw [Loans.enter, Run.exec_bind_ok hlock, Run.exec_catching, hnone]
        dsimp only
        rw [if_pos hcaught, Run.exec_bind_ok (Loans.exec_unlock _ _), Run.exec_failWith,
          Loans.unlockedAt_lockedAt hl]
      · have hinside : (Loans.contextInside (l.handleAt h).cell).exec
            (l.lockedAt (l.handleAt h).cell) = (.ok c, l.lockedAt (l.handleAt h).cell) :=
          Loans.exec_contextInside ((Loans.context_lockedAt ..).trans hc)
        refine hends ?_ (.opened hr hl hc)
        rw [Loans.enter, Run.exec_bind_ok hlock, Run.exec_catching_ok hinside]
    · refine hends ?_ (.held hr hl)
      have hheld : (Loans.acquire h patience).exec l = (.error patience.runOut, l) := by
        rw [Loans.cellOf] at hl
        rw [Loans.acquire.eq_def, Run.exec_bind_ok (Loans.exec_requireLive hr), Run.exec_get_bind]
        dsimp only
        rw [if_pos hl]
        cases patience <;> rfl
      rw [Loans.enter, Run.exec_bind_error hheld]
  · refine hends ?_ (.refused hr)
    have hrefused : (Loans.acquire h patience).exec l =
        (.error (.failed (.of Loans.handleReleased)), l) := by
      rw [Loans.acquire.eq_def, Run.exec_bind_error (Loans.exec_requireLive_released hr)]
    rw [Loans.enter, Run.exec_bind_error hrefused]

namespace Entering

variable {patience : Patience}

/-- An attempt that succeeds found the lock free, and took it. -/
theorem of_ok {c : Nat} (e : Entering l h patience (.ok c) l') :
    l.opens h = .ok c ∧ l' = l.lockedAt (l.handleAt h).cell := by
  cases e with
  | opened live free holds => exact ⟨Loans.opens_eq_ok_iff.mpr ⟨live, free, holds⟩, rfl⟩

/-- One that fails leaves everything on loan as it was. -/
theorem of_error {f : Stop} (e : Entering l h patience (.error f) l') : l' = l := by
  cases e with
  | refused | held | gone => rfl

/-- One that finds the lock held runs out of patience. -/
theorem of_held {r : Except Stop Nat} (e : Entering l h patience r l')
    (live : (l.handleAt h).released = false) (lock : (l.cellOf h).locked = true) :
    r = .error patience.runOut := by
  cases e with
  | refused gone => cases live.symm.trans gone
  | held => rfl
  | gone _ free | opened _ free => cases lock.symm.trans free

end Entering

/-! ### Blocks -/

namespace Session

/-- Opens a block: waits for the lock of a handle's cell, and holds the handle as long as the block
is open.  Gives the number of the cell, and the context. -/
def openBlock (h : Nat) (timeout : Option Datum) : Run World (Nat × Nat) := do
  let patience ← patienceOf h timeout
  let c ← onLoans (Loans.enter h patience)
  onLoans (Loans.hold h)
  let w ← get
  return ((w.loans.handleAt h).cell, c)

/-- The block that a command opens goes into a register. -/
theorem enterLock_eq (h : Nat) (timeout : Option Datum) (guard : String) (target : Option String) :
    enterLock h timeout guard target = do
      let (cell, c) ← inWorld (openBlock h timeout)
      target.forM (store · (.context c))
      store guard (.lock h cell)
      return .nothing := rfl

/-- Leaves a block as what was done in it ended. -/
def leaveBlock (h k : Nat) (how : Except Stop Unit) : Run World Unit :=
  Run.ensuring (Run.resume how) (giveUp (.lock h k))

theorem exec_leaveBlock (h k : Nat) (how : Except Stop Unit) (w : World) :
    (leaveBlock h k how).exec w =
      (how, { w with loans := (w.loans.unlockedAt k).withLetGo h }) := by
  have hgive : (giveUp (.lock h k)).exec w =
      (.ok (), { w with loans := (w.loans.unlockedAt k).withLetGo h }) := by
    rw [giveUp, onLoans, Run.exec_within, Run.exec_bind_ok (Loans.exec_unlock k w.loans),
      Loans.exec_letGo]
  exact Run.exec_ensuring_ok hgive

/-- To build a value changes nothing on loan. -/
theorem loans_of_build {d : Datum} {r : Except Stop Value} {w' : World}
    (e : (build d).exec w = (r, w')) : w'.loans = w.loans := by
  rw [build, Run.exec_get_bind, onHeap, Run.exec_within] at e
  rw [← (Prod.mk.inj e).2]

/-- A live handle waits as long as the value says. -/
theorem exec_patienceOf {d : Datum} {v : Value} {w' : World}
    (live : (w.loans.handleAt h).released = false) (e : (build d).exec w = (.ok v, w')) :
    (patienceOf h (some d)).exec w =
      ((Patience.ofValue w'.heap v).mapError fun f => .failed (.of f), w') := by
  have hlive : (onLoans (Loans.requireLive h)).exec w' = (.ok (), w') := by
    rw [onLoans, Run.exec_within, Loans.exec_requireLive (by rw [loans_of_build e, live])]
  rw [patienceOf, Run.exec_bind_ok e, Run.exec_bind_ok hlive, Run.exec_get_bind, Run.exec_ofExcept]

theorem loans_patienceOf (h : Nat) (timeout : Option Datum) (w : World) :
    ((patienceOf h timeout).exec w).2.loans = w.loans := by
  rcases timeout with - | d
  · rfl
  rcases e : (build d).exec w with ⟨f | v, w'⟩
  · rw [patienceOf, Run.exec_bind_error e]
    exact loans_of_build e
  rcases live : (w.loans.handleAt h).released with - | -
  · rw [exec_patienceOf live e]
    exact loans_of_build e
  · have hgone : (onLoans (Loans.requireLive h)).exec w' =
        (.error (.failed (.of Loans.handleReleased)), w') := by
      rw [onLoans, Run.exec_within,
        Loans.exec_requireLive_released (by rw [loans_of_build e, live])]
    rw [patienceOf, Run.exec_bind_ok e, Run.exec_bind_error hgone]
    exact loans_of_build e

/-- An attempt leaves everything on loan as it was, or it takes the lock, which was free. -/
theorem exec_openBlock_cases (h : Nat) (timeout : Option Datum) (w : World) :
    (∃ f w', (openBlock h timeout).exec w = (.error f, w') ∧ w'.loans = w.loans) ∨
      ∃ c w', (openBlock h timeout).exec w = (.ok ((w.loans.handleAt h).cell, c), w') ∧
        w.loans.opens h = .ok c ∧
        w'.loans.cells = (w.loans.lockedAt (w.loans.handleAt h).cell).cells := by
  rcases ep : (patienceOf h timeout).exec w with ⟨f | patience, w₁⟩
  · have hfailed : (openBlock h timeout).exec w = (.error f, w₁) := by
      rw [openBlock, Run.exec_bind_error ep]
    refine .inl ⟨f, w₁, hfailed, ?_⟩
    rw [← loans_patienceOf h timeout w, ep]
  have hsame : w₁.loans = w.loans := by rw [← loans_patienceOf h timeout w, ep]
  rcases ee : (Loans.enter h patience).exec w₁.loans with ⟨f | c, l⟩
  · have henter : (onLoans (Loans.enter h patience)).exec w₁ =
        (.error f, { w₁ with loans := l }) := by
      rw [onLoans, Run.exec_within, ee]
    have hfailed : (openBlock h timeout).exec w = (.error f, { w₁ with loans := l }) := by
      rw [openBlock, Run.exec_bind_ok ep, Run.exec_bind_error henter]
    refine .inl ⟨f, _, hfailed, ?_⟩
    rw [← hsame]
    exact (entering_of_exec ee).of_error
  · have henter : (onLoans (Loans.enter h patience)).exec w₁ = (.ok c, { w₁ with loans := l }) := by
      rw [onLoans, Run.exec_within, ee]
    obtain ⟨hopens, hl⟩ := (entering_of_exec ee).of_ok
    rw [hsame] at hopens hl
    let held := Loans.changeHandle h (fun r => { r with holders := r.holders + 1 }) l
    have hquiet : Quiet w.loans held := by
      have hlock : Quiet w.loans l := by
        rw [hl]
        exact .lock _ true w.loans
      exact hlock.trans (.holders h (· + 1) l)
    have hcell : (held.handleAt h).cell = (w.loans.handleAt h).cell :=
      congrArg Prod.fst (hquiet.handleAt h)
    have hopened : (openBlock h timeout).exec w =
        (.ok ((held.handleAt h).cell, c), { w₁ with loans := held }) := by
      rw [openBlock, Run.exec_bind_ok ep, Run.exec_bind_ok henter]
      rfl
    rw [hcell] at hopened
    have hcells : held.cells = (w.loans.lockedAt (w.loans.handleAt h).cell).cells := by
      rw [← hl]
      rfl
    exact .inr ⟨c, { w₁ with loans := held }, hopened, hopens, hcells⟩

/-- An attempt at a lock that is held, by a time that is not negative. -/
theorem exec_openBlock_held {d : Datum} {a : Atom} {w' : World}
    (live : (w.loans.handleAt h).released = false) (lock : (w.loans.cellOf h).locked = true)
    (e : (build d).exec w = (.ok (.atom a), w')) (time : a.Nonnegative) :
    w'.loans = w.loans ∧
      (a.timeFits = true → ∃ seconds, w'.heap.text (.atom a) = .ok seconds ∧
        (openBlock h (some d)).exec w = (.error (.failed (.of (Loans.lockTimeout seconds))), w')) ∧
      (a.timeFits = false → (openBlock h (some d)).exec w =
        (.error (.failed (.of Patience.ofBillionths.tooLong)), w')) := by
  have hsame := loans_of_build e
  have hpatience := exec_patienceOf live e
  rw [Patience.ofValue_of_nonnegative time] at hpatience
  refine ⟨hsame, fun fits => ?_, fun beyond => ?_⟩
  · obtain ⟨seconds, htext⟩ := time.exists_text fits w'.heap
    rw [if_pos fits, htext] at hpatience
    have henter : (onLoans (Loans.enter h (.upTo seconds))).exec w' =
        (.error (.failed (.of (Loans.lockTimeout seconds))), w') := by
      rcases ee : (Loans.enter h (.upTo seconds)).exec w'.loans with ⟨r, l⟩
      obtain rfl := (entering_of_exec ee).of_held (by rw [hsame, live]) (by rw [hsame, lock])
      rw [onLoans, Run.exec_within, ee, (entering_of_exec ee).of_error]
      rfl
    exact ⟨seconds, htext, (Run.exec_bind_ok hpatience).trans (Run.exec_bind_error henter)⟩
  · rw [if_neg (by rw [beyond]; exact Bool.false_ne_true)] at hpatience
    exact Run.exec_bind_error hpatience

end Session

/-- A world, and the blocks that are open in it: of each the handle that it was opened by, and the
cell. -/
structure Blocks where
  world : World
  opened : List (Nat × Nat)

namespace Blocks

/-- How many blocks of a cell are open. -/
def on (s : Blocks) (k : Nat) : Nat := s.opened.countP (·.2 == k)

/-- The lock of a cell is held while one block of the cell is open, and never while there are
more. -/
def Exact (s : Blocks) : Prop :=
  ∀ k, s.on k = if (s.world.loans.cellAt k).locked then 1 else 0

end Blocks

/-! ### Moves -/

/-- What is done with handles while blocks may be open. -/
inductive Move where
  | deed (d : Deed) (apart : d.Apart)
  | ask (h : Nat) (q : Request)
  /-- Tries to open a block. -/
  | enter (h : Nat) (timeout : Option Datum)
  /-- Leaves one of the blocks that are open, however it ended. -/
  | leave (i : Nat) (how : Except Stop Unit)

namespace Move

/-- What there is after a move, whether it was refused or not. -/
def after (s : Blocks) : Move → Blocks
  | deed d _ => ⟨d.after s.world, s.opened⟩
  | ask h q => ⟨((q.run (.through h)).exec s.world).2, s.opened⟩
  | enter h timeout =>
    match (Session.openBlock h timeout).exec s.world with
    | (.ok (k, _), w) => ⟨w, (h, k) :: s.opened⟩
    | (.error _, w) => ⟨w, s.opened⟩
  | leave i how =>
    match s.opened[i]? with
    | some (h, k) => ⟨((Session.leaveBlock h k how).exec s.world).2, s.opened.eraseIdx i⟩
    | none => s

/-- What there is after moves, one from where the one before left it. -/
def afterAll : List Move → Blocks → Blocks
  | [], s => s
  | m :: ms, s => afterAll ms (m.after s)

end Move

namespace Blocks.Exact

variable {s : Blocks}

/-- What opens and leaves no block, and keeps the locks. -/
theorem of_sameLocks (x : s.Exact) {w : World} (same : SameLocks s.world.loans w.loans) :
    Exact ⟨w, s.opened⟩ := fun k => (x k).trans (by rw [same k])

theorem enter (x : s.Exact) (h : Nat) (timeout : Option Datum) :
    (Move.enter h timeout |>.after s).Exact := by
  rcases Session.exec_openBlock_cases h timeout s.world with ⟨f, w', e, hsame⟩ |
    ⟨c, w', e, hopens, hcells⟩
  · rw [Move.after, e]
    exact x.of_sameLocks (.of_cells (by rw [hsame]))
  · rw [Move.after, e]
    intro k
    obtain ⟨-, -, q, eq, hfree, -⟩ := Loans.free_of_opens hopens
    have hlocked : (w'.loans.cellAt k).locked =
        if (s.world.loans.handleAt h).cell = k then true else (s.world.loans.cellAt k).locked := by
      rw [← Loans.locked_changeCell eq true k, Loans.cellAt, hcells]
      rfl
    have hmore : s.opened.countP (·.2 == k)
        + (if ((s.world.loans.handleAt h).cell == k) = true then 1 else 0)
        = if (w'.loans.cellAt k).locked then 1 else 0 := by
      have hx : s.opened.countP (·.2 == k) = _ := x k
      rw [hx, hlocked]
      by_cases hk : (s.world.loans.handleAt h).cell = k
      · subst hk
        simp [Loans.cellAt_eq eq, hfree]
      · simp [hk]
    exact List.countP_cons.trans hmore

theorem leave (x : s.Exact) (i : Nat) (how : Except Stop Unit) :
    (Move.leave i how |>.after s).Exact := by
  rw [Move.after]
  rcases e : s.opened[i]? with - | ⟨h, k⟩
  · exact x
  · dsimp only
    rw [Session.exec_leaveBlock]
    obtain ⟨hlt, hi⟩ := List.getElem?_eq_some_iff.mp e
    have hsplit : ∀ j,
        s.on j = (s.opened.eraseIdx i).countP (·.2 == j) + if k = j then 1 else 0 := by
      intro j
      rw [Blocks.on, ← (List.getElem_cons_eraseIdx_perm hlt).countP_eq, List.countP_cons, hi]
      simp
    -- one block of the cell is open, so its lock is held, and the cell is there
    have hheld : (s.world.loans.cellAt k).locked = true := by
      have hx := x k
      rw [hsplit k, if_pos rfl] at hx
      by_contra hfree
      rw [if_neg hfree] at hx
      omega
    obtain ⟨q, eq⟩ : ∃ q, s.world.loans.cells.get? k = some q := by
      rcases eq : s.world.loans.cells.get? k with - | q
      · rw [Loans.cellAt, eq] at hheld
        cases hheld
      · exact ⟨q, rfl⟩
    intro j
    have hx := x j
    rw [hsplit j] at hx
    show (s.opened.eraseIdx i).countP (·.2 == j) = _
    rw [SameLocks.withLetGo h _ j, Loans.locked_changeCell eq false j]
    by_cases hj : k = j
    · subst hj
      rw [if_pos rfl, hheld, if_pos rfl] at hx
      rw [if_pos rfl, if_neg Bool.false_ne_true]
      omega
    · rw [if_neg hj, Nat.add_zero] at hx
      rw [if_neg hj, hx]

/-- Each move keeps it. -/
theorem after (x : s.Exact) (m : Move) : (m.after s).Exact := by
  cases m with
  | deed d apart => exact x.of_sameLocks (d.sameLocks apart s.world)
  | ask h q => exact x.of_sameLocks (q.sameLocks h s.world)
  | enter h timeout => exact x.enter h timeout
  | leave i how => exact x.leave i how

/-- Induction on the moves. -/
theorem afterAll (x : s.Exact) (ms : List Move) : (Move.afterAll ms s).Exact := by
  induction ms generalizing s with
  | nil => exact x
  | cons m ms ih => exact ih (x.after m)

end Blocks.Exact

/-! ### No leaks -/

/-- Whatever was done with handles and blocks, the lock of a cell is held just if one block of the
cell is open, and there are never two.  A live handle that tries to open a block of a cell whose
lock is held, for a time that is not negative, is told that the time is over, if the time can be
held at all, and otherwise that it is too long; nothing changes but what it takes to build the
number.  A request through a handle leaves every lock as it was.  A block ends as what was done in
it ended. -/
theorem Move.locks_exact (ms : List Move) (w : World) :
    let s := afterAll ms ⟨w.unlent, []⟩
    (∀ k, s.on k ≤ 1 ∧ ((s.world.loans.cellAt k).locked = true ↔ s.on k = 1)) ∧
    (∀ h d a v, (s.world.loans.handleAt h).released = false →
      (s.world.loans.cellOf h).locked = true → (build d).exec s.world = (.ok (.atom a), v) →
      a.Nonnegative →
        v.loans = s.world.loans ∧
        (a.timeFits = true → ∃ seconds, v.heap.text (.atom a) = .ok seconds ∧
          (Session.openBlock h (some d)).exec s.world =
            (.error (.failed (.of (Loans.lockTimeout seconds))), v)) ∧
        (a.timeFits = false → (Session.openBlock h (some d)).exec s.world =
          (.error (.failed (.of Patience.ofBillionths.tooLong)), v))) ∧
    (∀ h (q : Request), SameLocks s.world.loans ((q.run (.through h)).exec s.world).2.loans) ∧
    ∀ i how h k, s.opened[i]? = some (h, k) →
      (Session.leaveBlock h k how).exec s.world = (how, ((leave i how).after s).world) := by
  intro s
  have x : s.Exact := by
    refine Blocks.Exact.afterAll (fun k => ?_) ms
    rfl
  refine ⟨fun k => ?_, fun h d a v live lock e time => Session.exec_openBlock_held live lock e time,
    fun h q => q.sameLocks h s.world, fun i how h k e => ?_⟩
  · rw [x k]
    cases (s.world.loans.cellAt k).locked <;> simp
  · rw [after, e]
    dsimp only
    rw [Session.exec_leaveBlock]

/-- A block is open; another handle on its cell waits for a second, and in vain. -/
theorem Move.locks_exact_one_second :
    let w := World.ofContext (.ofBase (.ofNamed [("x", .int 1)]))
    let s := afterAll [.deed (.wrap 0) trivial, .deed (.duplicate 0) trivial, .enter 0 none]
      ⟨w.unlent, []⟩
    (s.world.loans.cellAt 0).locked = true ∧ s.on 0 = 1 ∧
      (Session.openBlock 1 (some (.atom (.int 1)))).exec s.world =
        (.error (.failed (.of (Loans.lockTimeout "1"))), s.world) := by
  intro w s
  have hheld : (s.world.loans.cellOf 1).locked = true := by decide +kernel
  have hlive : (s.world.loans.handleAt 1).released = false := by decide +kernel
  have hlock : (s.world.loans.cellAt 0).locked = true := by decide +kernel
  have hall := locks_exact [.deed (.wrap 0) trivial, .deed (.duplicate 0) trivial, .enter 0 none] w
  have hs : afterAll [.deed (.wrap 0) trivial, .deed (.duplicate 0) trivial, .enter 0 none]
      ⟨w.unlent, []⟩ = s := rfl
  dsimp only at hall
  rw [hs] at hall
  clear_value s
  have hbuild : (build (.atom (.int 1))).exec s.world = (.ok (.atom (.int 1)), s.world) := rfl
  have htime : (Atom.int 1).Nonnegative := Int.one_nonneg
  obtain ⟨seconds, htext, hexec⟩ :=
    (hall.2.1 1 _ _ _ hlive hheld hbuild htime).2.1 (by decide +kernel)
  obtain rfl : seconds = "1" := (Except.ok.inj htext).symm
  exact ⟨hlock, (hall.1 0).2.mp hlock, hexec⟩

/-- A time that cannot be held: the attempt is refused, but not because the time is over. -/
theorem Move.lock_beyond_time :
    let w := World.ofContext (.ofBase (.ofNamed [("x", .int 1)]))
    let s := afterAll [.deed (.wrap 0) trivial, .enter 0 none] ⟨w.unlent, []⟩
    ((s.world.loans.handleAt 0).released = false ∧ (s.world.loans.cellOf 0).locked = true ∧
      (Atom.int 9223372037).Nonnegative) ∧
    (Session.openBlock 0 (some (.atom (.int 9223372037)))).exec s.world =
      (.error (.failed (.of Patience.ofBillionths.tooLong)), s.world) ∧
    ¬ ∃ seconds, ((Session.openBlock 0 (some (.atom (.int 9223372037)))).exec s.world).1 =
      .error (.failed (.of (Loans.lockTimeout seconds))) := by
  intro w s
  have hheld : (s.world.loans.cellOf 0).locked = true := by decide +kernel
  have hlive : (s.world.loans.handleAt 0).released = false := by decide +kernel
  have htime : (Atom.int 9223372037).Nonnegative := by
    show (0 : Int) ≤ 9223372037
    decide
  clear_value s
  have hbuild : (build (.atom (.int 9223372037))).exec s.world =
      (.ok (.atom (.int 9223372037)), s.world) := rfl
  have hexec := (Session.exec_openBlock_held hlive hheld hbuild htime).2.2 (by decide +kernel)
  refine ⟨⟨hlive, hheld, htime⟩, hexec, ?_⟩
  rintro ⟨seconds, e⟩
  rw [hexec] at e
  cases e

end Stencil
