/-
Stencil/Proofs/Render/Yielding.lean

What leaves the books alone.  Lending a context and getting it back touches
handles: those of the call itself (`World.Yields`), while the counts of all
others stay exact.  The counts of hand-overs change in one place only, where the
way back is written down, and that way is by a copy just if somebody else has a
live handle (`World.InOrder.wayBack_eq`).

Actions of scripts that keep a handle or take a context out of its cell are
discreet, hence scripts of them are what a tag may do.
-/
import Stencil.Proofs.Render.Audit

namespace Stencil

variable {w w' : World} {i d : Nat}

/-! ### One handle -/

/-- Whatever it does to the handle `own`, it leaves all others as live as they are, and counts
exact. -/
structure Loans.Yields (own : Nat) (l l' : Loans Value) : Prop where
  balanced : l.Balanced → l'.Balanced
  there : ∀ h, h < l.handles.size → h < l'.handles.size
  live : ∀ h k, h ≠ own → h ∈ l.live k → h ∈ l'.live k

namespace Loans.Yields

variable {own : Nat} {l l' : Loans Value}

instance (own : Nat) : IsPreorder (Loans Value) (Yields own) where
  refl _ := ⟨id, fun _ => id, fun _ _ _ => id⟩
  trans _ _ _ y y' :=
    ⟨fun b => y'.balanced (y.balanced b), fun h hlt => y'.there h (y.there h hlt),
      fun h k hne hmem => y'.live h k hne (y.live h k hne hmem)⟩

theorem of_quiet (q : Quiet l l') : Yields own l l' where
  balanced b := b.quiet q
  there h hlt := by
    obtain ⟨r, e⟩ := Table.exists_get? hlt
    obtain ⟨m, e'⟩ := q.handle_row e
    exact Table.lt_size e'
  live h k _ hmem := by rwa [q.live]

theorem detached (k : Nat) (l : Loans Value) : Yields own l (l.detached k) where
  balanced b := b.detached k
  there _ := id
  live h j _ hmem := by rwa [Loans.live_congr rfl j]

theorem withRelease (l : Loans Value) : Yields own l (l.withRelease own) where
  balanced b := b.withRelease own
  there h hlt := by rwa [Loans.size_handles_withRelease]
  live h k hne hmem := by
    rw [Loans.live_withRelease]
    exact Finset.mem_erase.mpr ⟨hne, hmem⟩

theorem withLetGo (l : Loans Value) : Yields own l (l.withLetGo own) := by
  have hholders : Yields own l
      (Loans.changeHandle own (fun r => { r with holders := r.holders - 1 }) l) :=
    of_quiet (.holders own (· - 1) l)
  rw [Loans.withLetGo]
  split
  · exact trans_of (Yields own) hholders (withRelease _)
  · exact hholders

end Loans.Yields

/-- Changes of the world that leave all handles but one as live as they are. -/
def World.Yields (own : Nat) (w w' : World) : Prop := w.loans.Yields own w'.loans

namespace World.Yields

variable {own : Nat}

theorem grows (y : World.Yields own w w') : w.loans.handles.size ≤ w'.loans.handles.size := by
  by_contra hlt
  exact (y.there _ (Nat.lt_of_not_le hlt)).false

instance (own : Nat) : IsPreorder World (World.Yields own) where
  refl w := refl_of (Loans.Yields own) w.loans
  trans _ _ _ y y' := trans_of (Loans.Yields own) y y'

theorem of_quiet (q : Quiet w.loans w'.loans) : World.Yields own w w' := Loans.Yields.of_quiet q

theorem keeps_detach (k : Nat) (w : World) :
    (onLoans (Loans.detach k)).Keeps (World.Yields own) w := by
  have hdetach : (Loans.detach k).Keeps (Loans.Yields own) w.loans := by
    refine .get_bind ?_
    split
    · exact .set_bind (.detached k w.loans) (.pure trivial)
    · exact .fail _
  exact ⟨hdetach.state, fun _ _ _ => trivial⟩

/-- The context is taken, or the handle released, or nothing comes back. -/
theorem of_reclaim (clone : Clone) (w : World) :
    World.Yields own w ((reclaim own clone).exec w).2 := by
  have ends := reclaims w own clone
  generalize ((reclaim own clone).exec w).1 = result at ends
  generalize ((reclaim own clone).exec w).2 = w' at ends ⊢
  cases ends with
  | held | gone | refused | stopped => exact .of_quiet (.refl w.loans)
  | taken one free holds =>
    exact trans_of (Loans.Yields own) (.detached _ w.loans) (.withRelease _)
  | @copied c copy s more eo e =>
    have hquiet : Quiet w.loans { w.loans with contexts := w.loans.contexts.add copy } :=
      .of_eq rfl rfl
    rw [World.Yields, World.loans_changeTally]
    exact trans_of (Loans.Yields own) (.of_quiet hquiet) (.withRelease _)

theorem keeps_getBack (name : String) (slot : Nat) (clone : Clone) (w : World) :
    (getBack name slot own clone).Keeps (World.Yields own) w := by
  have hswap : ∀ slot c w, (onLoans (Loans.swapBack slot c)).Keeps (World.Yields own) w :=
    fun slot c w => .of_exec rfl (.of_quiet (Quiet.of_eq rfl rfl)) fun _ _ => trivial
  have hrecord : ∀ x w, (writeRecord x).Keeps (World.Yields own) w :=
    fun x w => .of_exec (Run.exec_modify ..) (.of_quiet (.refl w.loans)) fun _ _ => trivial
  refine ⟨trans_of (World.Yields own) (of_reclaim clone w) ?_, fun _ _ _ => trivial⟩
  exact getBack_afterReclaim hswap hrecord name slot own clone w

end World.Yields

/-! ### The way back -/

/-- What the counts of a hand-over are about is the same. -/
structure SameBooks (w w' : World) : Prop where
  renderings : w'.renderings = w.renderings
  tallies : w'.tallies = w.tallies
  kept : w'.kept = w.kept

instance : IsPreorder World SameBooks where
  refl _ := ⟨rfl, rfl, rfl⟩
  trans _ _ _ h h' :=
    ⟨h'.renderings.trans h.renderings, h'.tallies.trans h.tallies, h'.kept.trans h.kept⟩

theorem lendsWithin_sameBooks : LendsWithin SameBooks :=
  ⟨fun _ _ => ⟨rfl, rfl, rfl⟩, fun _ _ => ⟨rfl, rfl, rfl⟩, fun _ _ => ⟨rfl, rfl, rfl⟩,
    fun _ _ => ⟨rfl, rfl, rfl⟩⟩

theorem World.changeTally_eq (h : w.books = some (i, d)) (f : Tally → Tally) :
    w.changeTally f = { w with tallies := w.tallies.modify i f } := by
  rw [changeTally]
  split
  · next e =>
    rw [books, rendering?, e] at h
    cases h
  · next x rest e =>
    rw [books, rendering?, e] at h
    have hx : x.tally = i := congrArg Prod.fst (Option.some.inj h)
    rw [hx]

/-- The way in which a handle is to come back. -/
def World.wayBack (w : World) (own : Nat) : ReclaimPath :=
  if (w.loans.cellOf own).references = 1 then .unique else .deepCopy

/-- Getting a context back in one of the ways. -/
def reclaimBy (own : Nat) (clone : Clone) : ReclaimPath → Run World Nat
  | .unique => reclaimUnique own
  | .deepCopy => reclaimCopy own clone

theorem exec_reclaim (own : Nat) (clone : Clone) (w : World) :
    (reclaim own clone).exec w =
      (do
        let c ← reclaimBy own clone (w.wayBack own)
        countPath (w.wayBack own)
        return (c, w.wayBack own) : Run World (Nat × ReclaimPath)).exec w := by
  rw [reclaim, Run.exec_get_bind, World.wayBack]
  split
  · rfl
  · rfl

theorem keeps_reclaimBy (own : Nat) (clone : Clone) (path : ReclaimPath) (w : World) :
    (reclaimBy own clone path).Keeps SameBooks w := by
  cases path with
  | unique => exact lendsWithin_sameBooks.reclaimUnique own w
  | deepCopy => exact lendsWithin_sameBooks.reclaimCopy own clone w

/-- Getting a context back counts the way, unless it stops. -/
theorem sameBooks_reclaim (h : w.books = some (i, d)) (own : Nat) (clone : Clone) :
    let w' := ((reclaim own clone).exec w).2
    let back : Handoff := ⟨own, clone, w⟩
    (back.Raises → SameBooks w w') ∧
      (¬ back.Raises →
        SameBooks { w with tallies := w.tallies.modify i (·.record (w.wayBack own)) } w') := by
  intro w' back
  have hway := (keeps_reclaimBy own clone (w.wayBack own) w).state
  have hexec := exec_reclaim own clone w
  rcases e : (reclaimBy own clone (w.wayBack own)).exec w with ⟨f | c, w₁⟩ <;> rw [e] at hway
  · rw [Run.exec_bind_error e] at hexec
    have hraises : back.Raises := by rw [Handoff.Raises, hexec]; rfl
    have hw' : w' = w₁ := congrArg Prod.snd hexec
    exact ⟨fun _ => hw' ▸ hway, fun hno => absurd hraises hno⟩
  · have h₁ : w₁.books = some (i, d) := (World.books_congr hway.renderings).trans h
    rw [Run.exec_bind_ok e, countPath, Run.exec_modify_bind, Run.exec_pure,
      World.changeTally_eq h₁] at hexec
    have hraises : ¬ back.Raises := by
      rw [Handoff.Raises, hexec]
      exact Bool.noConfusion
    have hw' : w' = _ := congrArg Prod.snd hexec
    refine ⟨fun hyes => absurd hyes hraises, fun _ => ?_⟩
    rw [hw']
    exact ⟨hway.renderings, by rw [hway.tallies], hway.kept⟩

/-- The way back is by a copy just if somebody else has a live handle. -/
theorem World.InOrder.wayBack_eq (o : w.InOrder) {own : Nat} (clone : Clone)
    (live : own ∈ w.loans.live (w.loans.handleAt own).cell) :
    w.wayBack own = if (⟨own, clone, w⟩ : Handoff).Held then .deepCopy else .unique := by
  have hcount : (w.loans.cellOf own).references
      = (w.loans.live (w.loans.handleAt own).cell).card := o.balanced.references_eq _
  rw [wayBack, hcount]
  by_cases held : (⟨own, clone, w⟩ : Handoff).Held
  · obtain ⟨j, hj, hne⟩ := held
    have htwo : 1 < (w.loans.live (w.loans.handleAt own).cell).card :=
      Finset.one_lt_card.mpr ⟨j, hj, own, live, hne⟩
    rw [if_neg (by omega), if_pos ⟨j, hj, hne⟩]
  · have hone : w.loans.live (w.loans.handleAt own).cell = {own} := by
      refine Finset.eq_singleton_iff_unique_mem.mpr ⟨live, fun j hj => ?_⟩
      by_contra hne
      exact held ⟨j, hj, hne⟩
    rw [hone, if_neg held, Finset.card_singleton]
    rfl

/-! ### Books -/

section Yielding

variable {x h : Nat}

theorem Spares.of_yields (y : World.Yields x w w') (hk : w'.kept = w.kept) (hne : h ≠ x) :
    Spares h w w' := by
  intro hlt hkept
  exact ⟨y.there h hlt, hk ▸ hkept, fun k hmem => y.live h k hne hmem⟩

theorem World.InOrder.of_yields (o : w.InOrder) (y : World.Yields x w w')
    (hk : w'.kept = w.kept) (ht : w.tallies.size ≤ w'.tallies.size) (hb : w'.books = w.books) :
    w'.InOrder where
  balanced := y.balanced o.balanced
  kept h hmem := y.there h (o.kept h (hk ▸ hmem))
  counted i d e := Nat.lt_of_lt_of_le (o.counted i d (hb ▸ e)) ht

/-- The function of a tag is done, and its handle given back unless it was cut short. -/
theorem yields_endOfCall (name : String) (lent : Nat) (body : Run World Value) (w : World) :
    World.Yields lent (body.exec w).2 (w.endOfCall name lent body) ∧
      SameBooks (body.exec w).2 (w.endOfCall name lent body) := by
  have hgive : World.Yields lent (body.exec w).2 ((giveBack lent body).exec w).2 ∧
      SameBooks (body.exec w).2 ((giveBack lent body).exec w).2 := by
    rw [exec_giveBack]
    dsimp only
    split
    · exact ⟨refl_of (World.Yields lent) _, refl_of SameBooks _⟩
    · exact ⟨Loans.Yields.withLetGo _, rfl, rfl, rfl⟩
  rw [World.endOfCall, callTag_rest]
  exact ⟨hgive.1, hgive.2.renderings, hgive.2.tallies, hgive.2.kept⟩

/-- The handles are let go of, one after the other. -/
theorem yields_letGoOf (own lent : Nat) (cut : Bool) (w : World) :
    ∃ v : World, World.Yields lent w v ∧ SameBooks w v ∧
      World.Yields own v { w with loans := w.loans.letGoOf own lent cut } := by
  refine ⟨{ w with loans := if cut then w.loans.withLetGo lent else w.loans }, ?_, ⟨rfl, rfl, rfl⟩,
    Loans.Yields.withLetGo _⟩
  split
  · exact Loans.Yields.withLetGo _
  · exact refl_of (World.Yields lent) w

end Yielding

/-! ### Scripts that keep handles -/

section Scripts

variable {given : List Nat} {n h : Nat} {c : Call} {render : TemplateRun}

instance : IsPreorder World (Discreet given n) where
  refl w := ⟨rfl, rfl, le_rfl, fun o _ => o, fun h _ _ => refl_of (Spares h) w⟩
  trans _ _ _ s s' :=
    { renderings := trans_of SameRenderings s.renderings s'.renderings
      tallies := s'.tallies.trans s.tallies
      grows := s.grows.trans s'.grows
      order := fun o there =>
        s'.order (s.order o there) fun h hmem => (there h hmem).trans_le s.grows
      spares := fun h hlt hmem => trans_of (Spares h) (s.spares h hlt hmem) (s'.spares h hlt hmem) }

/-- A step that does something to a handle it has, and leaves all others. -/
theorem Discreet.of_yields (hmem : h ∈ given) (y : World.Yields h w w') (s : SameBooks w w') :
    Discreet given n w w' where
  renderings := s.renderings
  tallies := s.tallies
  grows := y.grows
  order o _ := o.of_yields y s.kept (s.tallies ▸ le_rfl) (World.books_congr s.renderings)
  spares _ _ hx := .of_yields y s.kept fun e => hx (e ▸ hmem)

variable (hlent : ∀ h, c.lent = some h → h ∈ given)
include hlent

theorem discreet_keep (w : World) : (Action.run render c .keep).Keeps (Discreet given n) w := by
  rw [Action.run, Call.withHandle]
  split
  · next h e =>
    have hmem : h ∈ given := hlent h e
    let held := Loans.changeHandle h (fun r => { r with holders := r.holders + 1 }) w.loans
    have hquiet : Quiet w.loans held := .holders h (· + 1) w.loans
    have hsize : held.handles.size = w.loans.handles.size := Table.size_modify ..
    refine ⟨?_, fun _ _ _ => trivial⟩
    exact
      { renderings := rfl
        tallies := rfl
        grows := hsize.ge
        order := fun o there =>
          { balanced := o.balanced.quiet hquiet
            kept := fun x hx => by
              refine Nat.lt_of_lt_of_eq ?_ hsize.symm
              rcases List.mem_append.mp hx with hx | hx
              · exact o.kept x hx
              · obtain rfl := List.mem_singleton.mp hx
                exact there x hmem
            counted := o.counted }
        spares := fun x _ hx hlt hkeep => by
          refine ⟨Nat.lt_of_lt_of_eq hlt hsize.symm, fun hmem' => ?_, fun k hk => ?_⟩
          · rcases List.mem_append.mp hmem' with hmem' | hmem'
            · exact hkeep hmem'
            · exact hx (List.mem_singleton.mp hmem' ▸ hmem)
          · exact (hquiet.live k).ge hk }
  · exact .fail _

theorem discreet_detach (w : World) : (Action.run render c .detach).Keeps (Discreet given n) w := by
  rw [Action.run, Call.withHandle]
  split
  · next h e =>
    have hdetach : ∀ k, (onLoans (Loans.detach k)).Keeps (Discreet given n) w := fun k =>
      ⟨.of_yields (hlent h e) (World.Yields.keeps_detach k w).state
        ⟨rfl, rfl, rfl⟩, fun _ _ _ => trivial⟩
    exact .get_bind (.bind (hdetach _) fun _ _ _ _ => .pure trivial)
  · exact .fail _

end Scripts

/-- Induction on the script: each action is discreet. -/
theorem discreet_runScript {given : List Nat} {n : Nat} {c : Call} {render : TemplateRun}
    {script : List Action} (h : ∀ a ∈ script, ∀ w, (a.run render c).Keeps (Discreet given n) w)
    (w : World) : (runScript render c script).Keeps (Discreet given n) w := by
  have hactions : (runActions render c script).Keeps (Discreet given n) w := by
    induction script generalizing w with
    | nil =>
      rw [runActions]
      exact .pure trivial
    | cons a rest ih =>
      rw [runActions]
      refine .bind (h a (.head _) w) fun v w₁ _ _ => ?_
      split
      · exact .pure trivial
      · exact ih (fun a hmem => h a (.tail _ hmem)) w₁
  exact .bind hactions fun _ _ _ _ => .pure trivial

/-- The function of a tag that runs a script, which renders nothing. -/
def Venture.ofScript {given : List Nat} {n : Nat} (c : Call) (script : List Action)
    (h : ∀ a ∈ script, ∀ w,
      (a.run (fun _ _ => Run.unfinished) c).Keeps (Discreet given n) w) : Venture given n :=
  .step (runScript (fun _ _ => Run.unfinished) c script) (fun w => (discreet_runScript h w).state)
    fun r _ => .finish r

end Stencil
