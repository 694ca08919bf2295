/-
Stencil/Proofs/Render/Audit.lean

The books of a render, and what events say of them.  The counts of hand-overs
are shared by nested renders, so they are not looked at in one render alone: for
each stretch of a run it is said what its events add to the counts, and which
handles it spares (`Audits`).  Stretches are put together one after the other.

A render is a row of calls, so its books are in order when those of its calls
are (`audited_render`); a function of a tag is a row of steps and renders, so
its books are in order when those of its renders are (`Venture.audits`).
-/
import Stencil.Proofs.Render.Venture

namespace Stencil

variable {host below : Host} {tags : Ventures} {r : Renderer} {w w' w'' : World} {i d : Nat}

/-! ### Counts -/

/-- The hand-overs that are not counted as reclaimed. -/
def Tally.outstanding (t : Tally) : Int := t.handoffs - t.unique - t.deepCopy

/-- The counts of the render under way. -/
def World.tally (w : World) : Tally := (w.rendering?.map fun x => w.tallyAt x.tally).getD .zero

/-- The number of calls that are active. -/
def World.depth (w : World) : Nat := (w.rendering?.map (·.tagDepth)).getD 0

namespace Event

/-- The call that an event is about. -/
def call? : Event → Option TagCall
  | called c => some c
  | _ => none

/-- The hand-over that an event is about. -/
def handoff? : Event → Option Handoff
  | asked h => some h
  | _ => none

@[simp] theorem handoff?_within (e : Event) : e.within.handoff? = e.handoff? := by
  cases e <;> rfl

end Event

/-- The calls of tags, at every depth. -/
def callsIn (es : List Event) : List TagCall := es.filterMap Event.call?

theorem mem_callsIn {es : List Event} {c : TagCall} : c ∈ callsIn es ↔ .called c ∈ es := by
  rw [callsIn, List.mem_filterMap]
  constructor
  · rintro ⟨e, he, hc⟩
    cases e with
    | called c' =>
      obtain rfl := Option.some.inj hc
      exact he
    | runs | asked | rendered => cases hc
  · exact fun h => ⟨_, h, rfl⟩

/-- The hand-overs that are asked back. -/
def handoffsIn (es : List Event) : List Handoff := es.filterMap Event.handoff?

/-- The hand-overs whose context could not be got back. -/
def lostIn (es : List Event) : Nat := (handoffsIn es).countP fun h => h.Raises

/-- The hand-overs whose context came back while nobody else had a handle. -/
def aloneIn (es : List Event) : Nat := (handoffsIn es).countP fun h => ¬ h.Raises ∧ ¬ h.Held

/-- The hand-overs whose context came back while somebody else had a handle. -/
def heldIn (es : List Event) : Nat := (handoffsIn es).countP fun h => ¬ h.Raises ∧ h.Held

/-- The counts after events. -/
def Tally.counting (es : List Event) (t : Tally) : Tally :=
  ⟨t.handoffs + (handoffsIn es).length, t.unique + aloneIn es, t.deepCopy + heldIn es⟩

section Counting

variable {xs ys es : List Event} {t : Tally}

theorem handoffsIn_append : handoffsIn (xs ++ ys) = handoffsIn xs ++ handoffsIn ys :=
  List.filterMap_append ..

theorem handoffsIn_within : handoffsIn (es.map .within) = handoffsIn es := by
  simp [handoffsIn, List.filterMap_map]

namespace Tally

@[simp] theorem map_counting_nil (o : Option Tally) : o.map (counting []) = o := by
  cases o <;> rfl

theorem counting_append : t.counting (xs ++ ys) = (t.counting xs).counting ys := by
  simp [counting, aloneIn, heldIn, handoffsIn_append, Nat.add_assoc]

theorem counting_within : t.counting (es.map .within) = t.counting es := by
  rw [counting, counting, aloneIn, aloneIn, heldIn, heldIn, handoffsIn_within]

/-- An event that is no hand-over is not counted. -/
theorem counting_cons {e : Event} (he : e.handoff? = none) :
    t.counting (e :: es) = t.counting es := by
  have h : handoffsIn (e :: es) = handoffsIn es := List.filterMap_cons_none he
  rw [counting, counting, aloneIn, aloneIn, heldIn, heldIn, h]

/-- The count of hand-overs is that of the ways back, and of those that are lost. -/
theorem length_handoffsIn (es : List Event) :
    (handoffsIn es).length = lostIn es + aloneIn es + heldIn es := by
  rw [lostIn, aloneIn, heldIn]
  induction handoffsIn es with
  | nil => rfl
  | cons h hs ih =>
    by_cases hr : h.Raises
    · simp [hr, ih]
      omega
    · by_cases hh : h.Held
      · simp [hr, hh, ih]
        omega
      · simp [hr, hh, ih]
        omega

theorem outstanding_counting : (t.counting es).outstanding = t.outstanding + lostIn es := by
  rw [outstanding, outstanding, counting]
  dsimp only
  rw [length_handoffsIn es]
  omega

end Tally

end Counting

/-! ### What is to be shown -/

/-- The books of a call balance. -/
structure TagCall.Balanced (c : TagCall) : Prop where
  /-- The renders under way are as they were, with their names, lines and depths. -/
  renderings : c.finish.renderings = c.start.renderings
  started : c.finish.tally.handoffs = c.start.tally.handoffs + (handoffsIn c.extent).length
  outstanding : c.finish.tally.outstanding = c.start.tally.outstanding + lostIn c.extent
  copies : c.finish.tally.deepCopy = c.start.tally.deepCopy + heldIn c.extent

/-- What is to be shown of an event, when `d` calls are active around. -/
def Event.Sound (d : Nat) : Event → Prop
  | called c => c.Balanced
  | runs active w => w.depth = d + active
  | asked _ => True
  | rendered before after => after.renderings = before.renderings

theorem Event.Sound.within {e : Event} (h : e.Sound (d + 1)) : e.within.Sound d := by
  cases e with
  | runs active w =>
    have hdepth : w.depth = d + 1 + active := h
    show w.depth = d + (active + 1)
    omega
  | called | asked | rendered => exact h

/-- The books at the end of a stretch that began in order with the counts `i` and `d` active calls.
Handles that are safe are spared; `around` calls are active around the events. -/
structure Audited (safe : Nat → Prop) (i d around : Nat) (es : List Event) (w w' : World) :
    Prop where
  order : w'.InOrder
  books : w'.books = some (i, d)
  tallies : w'.tallies.get? i = (w.tallies.get? i).map (Tally.counting es)
  sound : ∀ e ∈ es, e.Sound around
  grows : w.loans.handles.size ≤ w'.loans.handles.size
  spares : ∀ h, safe h → Spares h w w'

/-- A stretch of a render leaves the books in order. -/
def Audits (safe : Nat → Prop) (i d around : Nat) (es : List Event) (w w' : World) : Prop :=
  w.InOrder → w.books = some (i, d) → Audited safe i d around es w w'

section Stretches

variable {safe : Nat → Prop} {around : Nat} {xs ys es : List Event}

namespace Audits

theorem rest (w : World) : Audits safe i d around [] w w := fun o b =>
  ⟨o, b, (Tally.map_counting_nil _).symm, List.forall_mem_nil _, le_rfl,
    fun h _ => refl_of (Spares h) w⟩

/-- One stretch after the other, where no handle is lost. -/
theorem andThen (h : Audits safe i d around xs w w')
    (h' : w.loans.handles.size ≤ w'.loans.handles.size → Audits safe i d around ys w' w'') :
    Audits safe i d around (xs ++ ys) w w'' := by
  intro o b
  have a := h o b
  have a' := h' a.grows a.order a.books
  refine ⟨a'.order, a'.books, ?_, fun e he => ?_, a.grows.trans a'.grows, fun x hx => ?_⟩
  · rw [a'.tallies, a.tallies, Option.map_map]
    exact congrFun (congrArg _ (funext fun t => Tally.counting_append.symm)) _
  · exact (List.mem_append.mp he).elim (a.sound e) (a'.sound e)
  · exact trans_of (Spares x) (a.spares x hx) (a'.spares x hx)

theorem append (h : Audits safe i d around xs w w') (h' : Audits safe i d around ys w' w'') :
    Audits safe i d around (xs ++ ys) w w'' :=
  h.andThen fun _ => h'

end Audits

/-! ### Steps beside the books -/

theorem World.depth_eq (h : w.books = some (i, d)) : w.depth = d := by
  obtain ⟨x, hx, hxid⟩ := Option.map_eq_some_iff.mp h
  rw [depth, hx]
  exact congrArg Prod.snd hxid

theorem World.tally_eq (h : w.books = some (i, d)) : w.tally = w.tallyAt i := by
  obtain ⟨x, hx, hxid⟩ := Option.map_eq_some_iff.mp h
  rw [tally, hx]
  exact congrArg w.tallyAt (congrArg Prod.fst hxid)

theorem World.books_congr (h : SameRenderings w w') : w'.books = w.books := by
  rw [books, books, rendering?, rendering?, h]

theorem World.books_changeRendering (f : Rendering → Rendering) (w : World) :
    (w.changeRendering f).books = w.rendering?.map fun x => ((f x).tally, (f x).tagDepth) := by
  show (w.renderings.modifyHead f).head?.map _ = _
  rw [List.head?_modifyHead, Option.map_map]
  rfl

theorem Spares.of_loans {h : Nat} (hl : w'.loans.handles = w.loans.handles)
    (hk : w'.kept = w.kept) : Spares h w w' := by
  intro hlt hkept
  rw [hl, hk]
  exact ⟨hlt, hkept, fun k hmem => by rwa [Loans.live_congr hl k]⟩

/-- Neither handles nor cells nor counts are touched. -/
theorem World.InOrder.congr (o : w.InOrder) (hc : w'.loans.cells = w.loans.cells)
    (hh : w'.loans.handles = w.loans.handles) (hk : w'.kept = w.kept)
    (ht : w'.tallies = w.tallies) (hb : ∀ i d, w'.books = some (i, d) → ∃ d', w.books = some (i, d')) :
    w'.InOrder where
  balanced := o.balanced.quiet (.of_eq hc hh)
  kept h hmem := by
    rw [hh]
    exact o.kept h (hk ▸ hmem)
  counted i d e := by
    obtain ⟨d', e'⟩ := hb i d e
    rw [ht]
    exact o.counted i d' e'

theorem Audits.aside (hc : w'.loans.cells = w.loans.cells) (hh : w'.loans.handles = w.loans.handles)
    (hk : w'.kept = w.kept) (ht : w'.tallies = w.tallies) (hb : w'.books = w.books) :
    Audits safe i d around [] w w' := fun o b =>
  { order := o.congr hc hh hk ht fun i d e => ⟨d, hb ▸ e⟩
    books := hb.trans b
    tallies := by rw [ht, Tally.map_counting_nil]
    sound := List.forall_mem_nil _
    grows := by rw [hh]
    spares := fun _ _ => .of_loans hh hk }

/-- The calls of a render are all that changes its books. -/
theorem chronicled_audits {note : Noting Event}
    (call : ∀ entry vs ns w, Audits safe i d around (note entry vs ns w) w
      ((entry.render host r vs ns).exec w).2) :
    Chronicled host note r (Audits safe i d around) where
  rest := .rest
  append := .append
  line w _ := .aside rfl rfl rfl rfl (w.books_changeRendering _)
  heap _ _ := .aside rfl rfl rfl rfl rfl
  change _ _ := .aside rfl rfl rfl rfl rfl
  call := call

end Stretches

/-! ### Renders -/

section Renders

variable {depth : Nat} {inside : Extents}

theorem World.books_begun (t : Template) (w : World) :
    (w.begun t).books = some (w.books.getD (w.tallies.size, 0)) := by
  rw [begun, beginRendering, Run.exec_modify, books, books, rendering?, rendering?]
  rcases w.renderings with - | ⟨x, rest⟩ <;> rfl

theorem World.loans_begun (t : Template) (w : World) : (w.begun t).loans = w.loans := by
  rw [begun, beginRendering, Run.exec_modify]
  split <;> rfl

theorem World.kept_begun (t : Template) (w : World) : (w.begun t).kept = w.kept := by
  rw [begun, beginRendering, Run.exec_modify]
  split <;> rfl

/-- A render in another one shares its counts. -/
theorem World.tallies_begun (t : Template) (h : w.books = some (i, d)) :
    (w.begun t).tallies = w.tallies := by
  rw [begun, beginRendering, Run.exec_modify]
  split
  · next e =>
    rw [books, rendering?, e] at h
    cases h
  · rfl

theorem World.InOrder.begun (o : w.InOrder) (t : Template) : (w.begun t).InOrder where
  balanced := by
    rw [w.loans_begun t]
    exact o.balanced
  kept h hmem := by
    rw [w.kept_begun t] at hmem
    rw [w.loans_begun t]
    exact o.kept h hmem
  counted i d e := by
    rw [w.books_begun t, Option.some.injEq] at e
    rcases hw : w.books with - | ⟨i', d'⟩
    · -- the render is the first, and its counts are new
      rw [hw, Option.getD_none] at e
      obtain ⟨rfl, rfl⟩ := Prod.mk.inj e
      have hnew : w.renderings = [] := by
        rcases hr : w.renderings with - | ⟨x, rest⟩
        · rfl
        · rw [World.books, World.rendering?, hr] at hw
          cases hw
      rw [World.begun, beginRendering, Run.exec_modify, hnew]
      show _ < (w.tallies.add .zero).size
      rw [Table.size_add]
      exact Nat.lt_succ_self _
    · rw [hw, Option.getD_some] at e
      obtain ⟨rfl, rfl⟩ := Prod.mk.inj e
      rw [World.tallies_begun t hw]
      exact o.counted i' d' hw

/-- In a render under way the active calls are those that are active when it begins. -/
theorem World.depth_begun {t : Template} (h : (w.begun t).books = some (i, d)) : w.depth = d := by
  rw [World.books_begun, Option.some.injEq] at h
  rcases hw : w.books with - | ⟨i', d'⟩
  · rw [hw] at h
    rw [World.depth, Option.map_eq_none_iff.mp hw]
    exact congrArg Prod.snd h
  · rw [hw] at h
    rw [World.depth_eq hw]
    exact congrArg Prod.snd h

/-- A render, when its calls are known to leave the books in order. -/
theorem audited_render
    (calls : ∀ i d r entry vs ns w, Audits (fun _ => True) i d d
      (notingCalls host tags depth inside r entry vs ns w) w
      ((entry.render (host.venturing tags depth) r vs ns).exec w).2)
    (template slot : Nat) (o : w.InOrder) :
    let es := eventsOfRender host tags depth inside template slot w
    let w' := ((renderSlot (host.venturing tags depth) template slot).exec w).2
    (∀ e ∈ es, e.Sound w.depth) ∧
      ∀ i d, w.books = some (i, d) → Audited (fun _ => True) i d d es w w' := by
  intro es w'
  let t := w.templateAt template
  have hsame : SameRenderings w w' :=
    (renderSlot_orderly (orderly_venturing host tags depth) template slot w).state
  obtain ⟨⟨i, d⟩, hid⟩ : ∃ b, (w.begun t).books = some b := ⟨_, w.books_begun t⟩
  have hdepth : w.depth = d := World.depth_begun hid
  have inner := (chronicled_audits (calls i d (w.rendererOf template slot))).ended (o.begun t) hid
  have sound : ∀ e ∈ es, e.Sound d := by
    intro e he
    rcases List.mem_append.mp he with he | he
    · exact inner.sound e he
    · obtain rfl := List.mem_singleton.mp he
      exact hsame
  refine ⟨fun e he => hdepth ▸ sound e he, fun i' d' hw => ?_⟩
  obtain ⟨rfl, rfl⟩ : i' = i ∧ d' = d := by
    rw [World.books_begun, hw] at hid
    exact Prod.mk.inj (Option.some.inj hid)
  have hend : w' = _ := exec_renderSlot_ended (host.venturing tags depth) template slot w
  have hbooks : w'.books = some (i', d') := (World.books_congr hsame).trans hw
  refine
    { order := inner.order.congr (by rw [hend]) (by rw [hend]) (by rw [hend]) (by rw [hend])
        fun j e hj => ?order
      books := hbooks
      tallies := ?tallies
      sound := sound
      grows := ?grows
      spares := fun h _ => ?spares }
  case order =>
    obtain ⟨rfl, -⟩ := Prod.mk.inj (Option.some.inj (hj.symm.trans hbooks))
    exact ⟨_, inner.books⟩
  case tallies =>
    have htallies := inner.tallies
    rw [World.tallies_begun t hw] at htallies
    have hlast : ∀ x : Tally, x.counting es = x.counting _ := fun x =>
      Tally.counting_append.trans (Tally.counting_cons rfl)
    rw [hend]
    exact htallies.trans (Option.map_congr fun x _ => (hlast x).symm)
  case grows =>
    have hgrows := inner.grows
    rw [World.loans_begun] at hgrows
    rw [hend]
    exact hgrows
  case spares =>
    have hbegun : Spares h w (w.begun t) := .of_loans (by rw [w.loans_begun t]) (w.kept_begun t)
    have hended : Spares h (w.ended _ template slot) w' := .of_loans (by rw [hend]) (by rw [hend])
    exact trans_of (Spares h) hbegun (trans_of (Spares h) (inner.spares h trivial) hended)

end Renders

/-! ### Functions of tags -/

/-- The books of every function of a tag, and of the calls and renders in it: the function has the
handle that it was lent, and spares all others that were there. -/
def Inside (below : Host) (inside : Extents) : Prop :=
  ∀ i d body (lent : Option Nat) vs ns w, (∀ h ∈ lent.toList, h < w.loans.handles.size) →
    Audits (fun h => h < w.loans.handles.size ∧ h ∉ lent.toList) i (d + 1) d
      (inside body lent vs ns w) w ((below.call body lent vs ns).exec w).2

section Ventures

variable {given : List Nat} {n : Nat} {safe : Nat → Prop}

theorem Discreet.audits (s : Discreet given n w w') (there : ∀ h ∈ given, h < w.loans.handles.size) :
    Audits (fun h => h < n ∧ h ∉ given) i (d + 1) d [] w w' := fun o b =>
  { order := s.order o there
    books := (World.books_congr s.renderings).trans b
    tallies := by rw [s.tallies, Tally.map_counting_nil]
    sound := List.forall_mem_nil _
    grows := s.grows
    spares := fun h hh => s.spares h hh.1 hh.2 }

/-- In a render that a function has made, its call is one active call more. -/
theorem Audited.within {es : List Event}
    (a : Audited (fun _ => True) i (d + 1) (d + 1) es w w') :
    Audited safe i (d + 1) d (es.map .within) w w' where
  order := a.order
  books := a.books
  tallies := by
    rw [a.tallies]
    exact Option.map_congr fun x _ => Tally.counting_within.symm
  sound e he := by
    obtain ⟨e', he', rfl⟩ := List.mem_map.mp he
    exact (a.sound e' he').within
  grows := a.grows
  spares h _ := a.spares h trivial

namespace Venture

/-- At a moment when a function is running, the call that it belongs to is active. -/
theorem audits_runs (w : World) : Audits safe i (d + 1) d [.runs 1 w] w w := fun o b =>
  { order := o
    books := b
    tallies := by
      rw [show Tally.counting [.runs 1 w] = Tally.counting [] from
        funext fun x => Tally.counting_cons rfl, Tally.map_counting_nil]
    sound := fun e he => by
      obtain rfl := List.mem_singleton.mp he
      exact World.depth_eq b
    grows := le_rfl
    spares := fun h _ => refl_of (Spares h) w }

/-- Induction on the venture: its own steps leave the books alone, and its renders leave them in
order. -/
theorem audits {renders : Nat → Nat → World → List Event}
    (hrenders : ∀ template slot w, w.InOrder → ∀ i d, w.books = some (i, d) →
      Audited (fun _ => True) i d d (renders template slot w) w
        ((renderSlot below template slot).exec w).2)
    (v : Venture given n) (w : World) (there : ∀ h ∈ given, h < w.loans.handles.size) :
    Audits (fun h => h < n ∧ h ∉ given) i (d + 1) d (v.events below renders w) w
      ((v.run below).exec w).2 := by
  induction v generalizing w with
  | finish r => exact audits_runs w
  | step act discreet next ih =>
    rw [exec_step]
    refine (audits_runs w).append (((discreet w).audits there).andThen fun grows => ?_)
    exact ih _ _ _ fun h hmem => (there h hmem).trans_le grows
  | render template slot next ih =>
    rw [exec_render]
    have hrender : Audits (fun h => h < n ∧ h ∉ given) i (d + 1) d
        ((renders template slot w).map .within) w ((renderSlot below template slot).exec w).2 :=
      fun o b => (hrenders template slot w o i (d + 1) b).within
    refine ((audits_runs w).append hrender).andThen fun grows => ?_
    exact ih _ _ _ fun h hmem => (there h hmem).trans_le grows

end Venture

end Ventures

end Stencil
