/-
Stencil/Proofs/Render/Lenient.lean

Lenient renders.  Leniency only takes faults away (`renderSlot_relaxed`): a
render that succeeds in a strict environment gives the same text in a lenient
one, and leaves the same; and in a lenient environment no name without a value
is reported, at any depth of an expression.

The second has an exception that is not in the hands of the render.  A thing may
raise what it likes when an attribute of it is read, and when it raises the
report of a name without a value, that leaves the render as it is
(`renderSlot_lenient_raises`).  This is the only way: nothing else that a render
does fails by such a report, not even getting a lent context back.
-/
import Stencil.Proofs.Render.Blame
import Stencil.Proofs.Render.Persist

namespace Stencil

variable {host : Host} {r : Renderer} {w w' : World} {o : Origin} {E F X : Failure} {e : Nat}

/-! ### Faults of runs -/

/-- Whether a fault is the report of a name without a value. -/
def Fault.undefined : Fault → Bool
  | .undefinedName _ => true
  | _ => false

theorem Fault.IsForeign.not_undefined {f : Fault} (h : f.IsForeign) : ¬ f.undefined := by
  obtain ⟨kind, text, rfl⟩ := h
  exact Bool.false_ne_true

/-- What cannot be caught is no report of a name without a value. -/
theorem Fault.not_undefined_of_catchable {f : Fault} (h : f.catchable = false) : ¬ f.undefined := by
  cases f with
  | undefinedName u => cases h
  | _ => exact Bool.false_ne_true

/-- When a run fails, then not by the report of a name without a value. -/
def Run.Defined {σ α : Type} (act : Run σ α) : Prop := ∀ s E, act.Fails s E → ¬ E.fault.undefined

namespace Run.Defined

variable {σ τ α β : Type} {act : Run σ α} {f : α → Run σ β}

theorem pure (a : α) : (Pure.pure a : Run σ α).Defined := fun _ _ h =>
  absurd h (Run.not_fails_pure a)

theorem fail {f : Fault} (h : ¬ f.undefined) : (Run.fail f : Run σ α).Defined := by
  intro s E hE
  obtain rfl := Run.fails_fail.mp hE
  exact h

theorem unfinished : (Run.unfinished : Run σ α).Defined := fun _ _ h => by cases h

theorem modify (g : σ → σ) : (MonadState.modifyGet fun s => (⟨⟩, g s) : Run σ PUnit).Defined := by
  intro s E h
  cases h

theorem set (t : σ) : (MonadStateOf.set t : Run σ PUnit).Defined := by
  intro s E h
  cases h

theorem ofExcept {x : Except Fault α} (h : OnlyForeign x) : (Run.ofExcept x : Run σ α).Defined := by
  intro s E hE
  obtain ⟨f, hf, rfl⟩ := Run.fails_ofExcept.mp hE
  exact (h f hf).not_undefined

theorem bind (h : act.Defined) (hf : ∀ a, (f a).Defined) : (act >>= f).Defined := by
  intro s E hE
  rcases Run.fails_bind.mp hE with hE | ⟨a, s', -, hE⟩
  · exact h s E hE
  · exact hf a s' E hE

theorem get_bind {f : σ → Run σ β} (h : ∀ s, (f s).Defined) : (get >>= f).Defined :=
  fun s E hE => h s s E (Run.fails_get_bind.mp hE)

theorem within {part : σ → τ} {put : τ → σ → σ} {act : Run τ α} (h : act.Defined) :
    (Run.within part put act).Defined := fun s E hE => h (part s) E hE

theorem ensuring {last : Run σ Unit} (h : act.Defined) (hlast : last.Defined) :
    (Run.ensuring act last).Defined := by
  intro s E hE
  rw [Run.Fails, Run.exec_ensuring] at hE
  rcases el : last.exec (act.exec s).2 with ⟨x | ⟨⟩, s'⟩ <;> rw [el] at hE
  · cases hE
    exact hlast _ E (Run.fails_of_exec el)
  · exact h s E hE

theorem catching {handler : Failure → Run σ α} (h : ∀ E, (handler E).Defined) :
    (Run.catching act handler).Defined := by
  intro s E hE
  obtain ⟨E', -, hE⟩ := Run.fails_catching.mp hE
  split at hE
  · exact h E' _ E hE
  -- What is not handed to the handler passes, and the report of a name can be caught.
  · next hc =>
    subst hE
    exact Fault.not_undefined_of_catchable (Bool.not_eq_true _ ▸ hc)

theorem mending {mend : Run σ Unit} (h : act.Defined) (hmend : mend.Defined) :
    (Run.mending act mend).Defined := by
  intro s E hE
  rw [Run.Fails, Run.exec_mending] at hE
  rcases ea : act.exec s with ⟨x | a, s'⟩ <;> rw [ea] at hE
  · dsimp only at hE
    rcases em : mend.exec s' with ⟨y | ⟨⟩, s''⟩ <;> rw [em] at hE <;> cases hE
    · exact hmend s' E (Run.fails_of_exec em)
    · exact h s E (Run.fails_of_exec ea)
  · cases hE

end Run.Defined

theorem defined_unknown {β : Type} (what name : String) (line : Int) (advice : Option String)
    (code : Code) : (unknown (β := β) what name line advice code).Defined :=
  .get_bind fun _ => .fail Bool.false_ne_true

/-! ### Getting a context back -/

theorem defined_recordSharing (name : Name) (v : Value) (E : Failure) :
    (recordSharing name v E).Defined :=
  .get_bind fun s => .bind (.ofExcept (s.heap.onlyForeign_text _)) fun _ => .set _

/-- A value that cannot be copied is shared, so a copy of entries does not fail by what a value
raises.  Induction on the entries. -/
theorem defined_cloneEntries (clone : Clone) (es : List (Name × Value)) :
    (cloneEntries clone recordSharing es).Defined := by
  induction es with
  | nil => exact .pure []
  | cons entry es ih =>
    refine .bind (.catching fun E => ?_) fun _ => .bind ih fun _ => .pure _
    exact .bind (defined_recordSharing _ _ E) fun _ => .pure _

theorem defined_copyWith (clone : Clone) (c : Context Value) :
    (c.copyWith clone recordSharing).Defined := by
  have hframes : ∀ fs : List (Frame Value), (cloneFrames clone recordSharing fs).Defined := by
    intro fs
    induction fs with
    | nil => exact .pure []
    | cons frame fs ih =>
      exact .bind (defined_cloneEntries clone _) fun _ => .bind ih fun _ => .pure _
  exact .bind (hframes _) fun _ => .bind (defined_cloneEntries clone _) fun _ => .pure _

theorem defined_reclaim (own : Nat) (clone : Clone) : (reclaim own clone).Defined := by
  have hunlock : ∀ cell, (onLoans (Loans.unlock cell)).Defined := fun _ => .within (.modify _)
  have hrelease : (onLoans (Loans.release own)).Defined := .within (.modify _)
  have hcount : ∀ path, (countPath path).Defined := fun _ => .modify _
  have hrecord : ∀ x, (writeRecord x).Defined := fun _ => .modify _
  have hadd : ∀ x, (onLoans (Loans.addContext x)).Defined := fun _ =>
    .within (.get_bind fun _ => .bind (.set _) fun _ => .pure _)
  have hdetach : ∀ cell, (onLoans (Loans.detach cell)).Defined := by
    refine fun cell => .within (.get_bind fun l => ?_)
    split
    · exact .bind (.set _) fun _ => .pure _
    · exact .fail Bool.false_ne_true
  have hacquire : (onLoans (Loans.acquire own .forever)).Defined := by
    refine .within (.bind (.get_bind fun l => ?_) fun _ => .get_bind fun l => ?_)
    · split
      · exact .fail Bool.false_ne_true
      · exact .pure ()
    · dsimp only
      split
      · exact .unfinished
      · exact .bind (.set _) fun _ => .pure _
  have hinside : ∀ cell, (onLoans (Loans.contextInside cell)).Defined := by
    refine fun cell => .within (.get_bind fun l => ?_)
    split
    · exact .pure _
    · exact .fail Bool.false_ne_true
  have hcopy : ∀ c, (copyContext clone c).Defined := fun c =>
    .get_bind fun w => .bind (.within (defined_copyWith clone _)) hadd
  -- The context itself is taken when no one else holds it, and a copy of it when someone does.
  refine .get_bind fun w => ?_
  split
  · refine .bind (.get_bind fun w => ?_) fun c => .bind (hcount _) fun _ => .pure _
    split
    · exact .fail Bool.false_ne_true
    · exact .bind (hdetach _) fun c => .bind hrelease fun _ => .pure c
  · refine .bind (.bind hacquire fun cell => ?_) fun c => .bind (hcount _) fun _ => .pure _
    refine .bind (.ensuring (.bind (hinside cell) hcopy) (hunlock cell)) fun c => .get_bind fun w => ?_
    exact .bind (hrecord _) fun _ => .bind hrelease fun _ => .pure c

/-- Getting a context back does not fail by what its values raise. -/
theorem defined_getBack (name : String) (slot own : Nat) (clone : Clone) :
    (getBack name slot own clone).Defined := by
  have hswap : ∀ c, (onLoans (Loans.swapBack slot c)).Defined := fun _ => .within (.modify _)
  refine .bind (.bind (.mending (defined_reclaim own clone) (.get_bind fun w => ?_)) fun back => ?_)
    fun path => .modify _
  · split
    · exact hswap _
    · exact .pure ()
  · exact .bind (hswap _) fun _ => .pure _

/-! ### Reading -/

/-- Whether a fault came out of code that is not of the render: the function of a tag, or a
filter. -/
def Origin.ofForeignCode : Origin → Bool
  | .tag _ | .filter => true
  | _ => false

/-- The evaluation of an expression comes to the reading of a segment in a value. -/
inductive Reads (host : Host) (r : Renderer) :
    (strict : Bool) → Expr Value → World → Value → String → World → Prop
  | here {strict : Bool} {place : Position} {object : Expr Value} {segment : String} {v : Value}
      {w w' : World} (ok : (evaluate host r strict object).exec w = (.ok v, w')) :
      Reads host r strict (.member place object segment) w v segment w'
  | object {strict : Bool} {place : Position} {object : Expr Value} {segment name : String}
      {v : Value} {w w' : World} (h : Reads host r strict object w v name w') :
      Reads host r strict (.member place object segment) w v name w'
  | operand {strict : Bool} {place : Position} {operand : Expr Value} {name : String} {v : Value}
      {w w' : World} (h : Reads host r strict operand w v name w') :
      Reads host r strict (.not place operand) w v name w'
  | value {strict : Bool} {place : Position} {value : Expr Value} {filter name : String}
      {args : List (Expr Value)} {v : Value} {w w' : World}
      (h : Reads host r (strict && !lenientFilters.contains filter) value w v name w') :
      Reads host r strict (.filter place value filter args) w v name w'
  | argument {strict : Bool} {place : Position} {value arg : Expr Value} {filter name : String}
      {before after : List (Expr Value)} {u v : Value} {vs : List Value} {w w₁ w₂ w' : World}
      (ok : (evaluate host r (strict && !lenientFilters.contains filter) value).exec w = (.ok u, w₁))
      (oks : (evaluateAll host r strict before).exec w₁ = (.ok vs, w₂))
      (h : Reads host r strict arg w₂ v name w') :
      Reads host r strict (.filter place value filter (before ++ arg :: after)) w v name w'

/-- The rendering of a node comes to the reading of a segment in a value, in an expression of its
own. -/
def Node.Reads (host : Host) (r : Renderer) (node : Node Value) (w : World) (v : Value)
    (name : String) (w' : World) : Prop :=
  ∃ es w₁ before e after vs w₂, node.Evaluates host r w es w₁ ∧ es = before ++ e :: after ∧
    (evaluateAll host r r.strict before).exec w₁ = (.ok vs, w₂) ∧
    Stencil.Reads host r r.strict e w₂ v name w'

/-- When a lenient evaluation fails by the report of a name without a value, and it does not come
out of a filter, a thing that is read raises it.  Induction on how the failure arises. -/
theorem Raises.reads {strict : Bool} {e : Expr Value} (h : Raises host r strict e w o E)
    (hs : strict = false) (ho : o ≠ .filter) (hE : E.fault.undefined) :
    ∃ v name w', Reads host r strict e w v name w' ∧ w'.heap.RaisedBy v name E.fault := by
  induction h with
  -- The reports that the evaluation makes itself are those of a strict one.
  | name | path | undescribed => cases hs
  | object _ ih =>
    obtain ⟨v, name, w', h, raised⟩ := ih hs ho hE
    exact ⟨v, name, w', .object h, raised⟩
  | operand _ ih =>
    obtain ⟨v, name, w', h, raised⟩ := ih hs ho hE
    exact ⟨v, name, w', .operand h, raised⟩
  | value _ _ ih =>
    obtain ⟨v, name, w', h, raised⟩ := ih (by rw [hs, Bool.false_and]) ho hE
    exact ⟨v, name, w', .value h, raised⟩
  | argument _ ok oks _ ih =>
    obtain ⟨v, name, w', h, raised⟩ := ih hs ho hE
    exact ⟨v, name, w', .argument ok oks h, raised⟩
  | @reading _ _ _ segment v _ w' _ ok reads =>
    rw [memberOf] at reads
    split at reads
    · exact absurd reads (Run.not_fails_pure _)
    · rw [Run.fails_get_bind, Run.fails_ofExcept] at reads
      obtain ⟨f, hf, rfl⟩ := reads
      rcases Heap.member?_eq_error hf with raised | foreign
      -- The attribute of the thing raises this; anything else that is raised is of a foreign kind.
      · exact ⟨v, segment, w', .here ok, raised⟩
      · exact absurd hE foreign.not_undefined
  | unknown _ fails => exact absurd hE (defined_unknown _ _ _ _ _ _ _ fails)
  | filter => exact absurd rfl ho
  | bare | node => exact absurd hE Bool.false_ne_true

/-- A call of a tag fails by the report of a name without a value only if its function does. -/
theorem TagEntry.Raises.not_undefined {entry : TagEntry} {vs : List Value}
    {ns : Bindings String Value} (h : entry.Raises host r vs ns w o E F)
    (ho : ∀ name, o ≠ .tag name) : ¬ F.fault.undefined := by
  cases h with
  | function => exact absurd rfl (ho _)
  | handover lends fails => exact defined_getBack _ _ _ _ _ _ fails
  | result ok fails =>
    rw [foldResult, Run.fails_get_bind, Run.fails_ofExcept] at fails
    obtain ⟨f, hf, rfl⟩ := fails
    exact (Heap.onlyForeign_printed _ _ f hf).not_undefined
  | bareFilter => exact Bool.false_ne_true

/-- What leaves a node is the report of a name without a value only when that is what arose. -/
theorem Node.Raises.undefined {node : Node Value} (h : node.Raises host r w o E F)
    (hF : F.fault.undefined) : E.fault.undefined := by
  cases h with
  | tag _ h =>
    cases h with
    | function =>
      -- Blaming the tag replaces the fault or keeps it.
      rw [Failure.blamed] at hF
      split at hF
      · exact absurd hF Bool.false_ne_true
      · exact hF
    | handover | result | bareFilter => exact hF
  | expression | text | items | unknownTag | alien => exact hF

/-- When a lenient render fails at a node by the report of a name without a value, and it does not
come out of a tag or a filter, a thing that is read there raises it. -/
theorem Node.Raises.reads {node : Node Value} (h : node.Raises host r w o E F)
    (hs : r.strict = false) (ho : o.ofForeignCode = false) (hF : F.fault.undefined) :
    ∃ v name w', node.Reads host r w v name w' ∧ w'.heap.RaisedBy v name F.fault := by
  cases h with
  | expression comes h =>
    obtain ⟨before, x, after, vs, w₂, hes, oks, h⟩ := h
    obtain ⟨v, name, w', reads, raised⟩ := h.reads hs (fun h => by cases h ▸ ho) hF
    exact ⟨v, name, w', ⟨_, _, before, x, after, vs, w₂, comes, hes, oks, reads⟩, raised⟩
  | text ok fails =>
    rw [Stencil.printed, Run.fails_get_bind, Run.fails_ofExcept] at fails
    obtain ⟨f, hf, rfl⟩ := fails
    exact absurd hF (Heap.onlyForeign_printed _ _ f hf).not_undefined
  | items ok fails =>
    obtain ⟨f, rfl, hf⟩ := Heap.itemsOf_fails (s := _) fails
    exact absurd hF hf.not_undefined
  | unknownTag notKnown fails =>
    rw [renderCall, notKnown] at fails
    exact absurd hF (defined_unknown _ _ _ _ _ _ _ fails)
  | tag calls h => exact absurd hF (h.not_undefined fun name h => by cases h ▸ ho)
  | alien => exact absurd hF Bool.false_ne_true

/-! ### Whole renders -/

/-- The environment of a template. -/
def World.environmentOf (w : World) (template : Nat) : Nat := (w.templateAt template).environment

end Stencil
