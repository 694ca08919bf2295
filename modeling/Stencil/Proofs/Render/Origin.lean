/-
Stencil/Proofs/Render/Origin.lean

What a fault came out of while an expression was evaluated.  An expression fails just where one of
the steps of its evaluation fails (`raises_of_fails`, `Raises.fails`): a filter, the reading of an
attribute, the report of a name without a value, or something else that the render does itself.

The report of a name without a value has the template, the line and the source that were noted when
the evaluation began (`Raises.told`), since nothing that an expression does changes them; this is an
induction on how the failure arises.
-/
import Stencil.Proofs.Render.Respect
import Stencil.Proofs.Value.Outside

namespace Stencil

/-! ### Where faults come from -/

/-- What a fault came out of. -/
inductive Origin where
  /-- The function of a tag. -/
  | tag (name : String)
  /-- Getting a lent context back. -/
  | handover
  | filter
  /-- Reading an attribute or an item of a value. -/
  | reading
  /-- A name or path without a value. -/
  | missing
  /-- Anything else that a render does. -/
  | operation
  deriving DecidableEq, Repr

/-- The report of a name without a value. -/
def World.undefinedName (w : World) (name : String) (available : List Text.Candidate) :
    UndefinedName where
  name := .str name
  templateName := w.rendering?.bind (·.templateName)
  line := w.rendering?.map (·.line)
  available
  snippet := w.rendering?.bind (·.snippet?)

/-- How the report of a name without a value ends: it is made, or the names there are cannot be
written. -/
inductive Missing (slot : Nat) (name : String) (w : World) : Origin → Failure → Prop
  | reported {available : List Text.Candidate}
      (names : (w.contextIn slot).names.mapM (·.candidate w.heap) = .ok available) :
      Missing slot name w .missing (.of (.undefinedName (w.undefinedName name available)))
  | unwritten {f : Fault} (names : (w.contextIn slot).names.mapM (·.candidate w.heap) = .error f) :
      Missing slot name w .operation (.of f)

variable {host : Host} {r : Renderer} {strict : Bool} {slot : Nat} {name : String} {w w' : World}
  {o : Origin} {E : Failure} {e : Expr Value}

theorem undefined_fails : (undefined slot name).Fails w E ↔ ∃ o, Missing slot name w o E := by
  rw [undefined, Run.fails_get_bind, Run.fails_bind, Run.fails_ofExcept]
  constructor
  · rintro (⟨f, names, rfl⟩ | ⟨available, w', hnames, hfail⟩)
    · exact ⟨_, .unwritten names⟩
    · obtain ⟨names, rfl⟩ := Run.exec_ofExcept_eq_ok.mp hnames
      obtain rfl := Run.fails_fail.mp hfail
      exact ⟨_, .reported names⟩
  · rintro ⟨o, h⟩
    cases h with
    | reported names =>
      exact .inr ⟨_, w, Run.exec_ofExcept_eq_ok.mpr ⟨names, rfl⟩, Run.fails_fail.mpr rfl⟩
    | unwritten names => exact .inl ⟨_, names, rfl⟩

/-- The evaluation of an expression fails by a failure that comes out of one of its steps; all steps
before it succeeded. -/
inductive Raises (host : Host) (r : Renderer) :
    (strict : Bool) → Expr Value → World → Origin → Failure → Prop
  | name {place : Position} {name : String} {w : World} {o : Origin} {E : Failure}
      (unbound : (w.contextIn r.slot).lookup? name = none) (missing : Missing r.slot name w o E) :
      Raises host r true (.name place name) w o E
  | object {strict : Bool} {place : Position} {object : Expr Value} {segment : String} {w : World}
      {o : Origin} {E : Failure} (h : Raises host r strict object w o E) :
      Raises host r strict (.member place object segment) w o E
  | reading {strict : Bool} {place : Position} {object : Expr Value} {segment : String}
      {v : Value} {w w' : World} {E : Failure}
      (ok : (evaluate host r strict object).exec w = (.ok v, w'))
      (reads : (memberOf v segment).Fails w' E) :
      Raises host r strict (.member place object segment) w .reading E
  | undescribed {place : Position} {object : Expr Value} {segment : String} {v : Value}
      {w w' w'' : World} {f : Fault} (ok : (evaluate host r true object).exec w = (.ok v, w'))
      (absent : (memberOf v segment).exec w' = (.ok none, w''))
      (describes : (Expr.member place object segment).describe w''.heap = .error f) :
      Raises host r true (.member place object segment) w .operation (.of f)
  | path {place : Position} {object : Expr Value} {segment name : String} {v : Value}
      {w w' w'' : World} {o : Origin} {E : Failure}
      (ok : (evaluate host r true object).exec w = (.ok v, w'))
      (absent : (memberOf v segment).exec w' = (.ok none, w''))
      (describes : (Expr.member place object segment).describe w''.heap = .ok name)
      (missing : Missing r.slot name w'' o E) :
      Raises host r true (.member place object segment) w o E
  | operand {strict : Bool} {place : Position} {operand : Expr Value} {w : World} {o : Origin}
      {E : Failure} (h : Raises host r strict operand w o E) :
      Raises host r strict (.not place operand) w o E
  | unknown {strict : Bool} {place : Position} {value : Expr Value} {name : String}
      {args : List (Expr Value)} {w : World} {E : Failure} (notKnown : r.filters.get? name = none)
      (fails : (unknown (β := Value) "filter" name place.line none .filterError).Fails w E) :
      Raises host r strict (.filter place value name args) w .operation E
  | value {strict : Bool} {place : Position} {value : Expr Value} {name : String}
      {args : List (Expr Value)} {f : Filter} {w : World} {o : Origin} {E : Failure}
      (known : r.filters.get? name = some f)
      (h : Raises host r (strict && !lenientFilters.contains name) value w o E) :
      Raises host r strict (.filter place value name args) w o E
  | argument {strict : Bool} {place : Position} {value arg : Expr Value} {name : String}
      {before after : List (Expr Value)} {f : Filter} {v : Value} {vs : List Value}
      {w w₁ w₂ : World} {o : Origin} {E : Failure} (known : r.filters.get? name = some f)
      (ok : (evaluate host r (strict && !lenientFilters.contains name) value).exec w = (.ok v, w₁))
      (oks : (evaluateAll host r strict before).exec w₁ = (.ok vs, w₂))
      (h : Raises host r strict arg w₂ o E) :
      Raises host r strict (.filter place value name (before ++ arg :: after)) w o E
  | filter {strict : Bool} {place : Position} {value : Expr Value} {name : String}
      {args : List (Expr Value)} {f : Filter} {v : Value} {vs : List Value} {w w₁ w₂ : World}
      {E : Failure} (known : r.filters.get? name = some f)
      (ok : (evaluate host r (strict && !lenientFilters.contains name) value).exec w = (.ok v, w₁))
      (oks : (evaluateAll host r strict args).exec w₁ = (.ok vs, w₂))
      (fails : (onHeap (host.filter f (v :: vs))).Fails w₂ E) :
      Raises host r strict (.filter place value name args) w .filter E
  | bare {strict : Bool} {place : Position} {w : World} :
      Raises host r strict (.bare place) w .operation (.of (noValue (.bare place)))
  | node {strict : Bool} {node : Node Value} {w : World} :
      Raises host r strict (.node node) w .operation (.of (noValue (.node node)))

/-! ### Failing evaluations -/

/-- Expressions in order are evaluated up to one of them, and that fails. -/
def AllRaise (host : Host) (r : Renderer) (strict : Bool) (es : List (Expr Value)) (w : World)
    (o : Origin) (E : Failure) : Prop :=
  ∃ before arg after vs w', es = before ++ arg :: after ∧
    (evaluateAll host r strict before).exec w = (.ok vs, w') ∧ Raises host r strict arg w' o E

theorem AllRaise.head {es : List (Expr Value)} (h : Raises host r strict e w o E) :
    AllRaise host r strict (e :: es) w o E :=
  ⟨[], e, es, [], w, rfl, by rw [evaluateAll]; rfl, h⟩

theorem AllRaise.tail {es : List (Expr Value)} {v : Value}
    (ok : (evaluate host r strict e).exec w = (.ok v, w')) (h : AllRaise host r strict es w' o E) :
    AllRaise host r strict (e :: es) w o E := by
  obtain ⟨before, arg, after, vs, w'', rfl, oks, h⟩ := h
  refine ⟨e :: before, arg, after, v :: vs, w'', rfl, ?_, h⟩
  rw [evaluateAll, Run.exec_bind_ok ok, Run.exec_bind_ok oks]
  rfl

/-- What a filter is applied to fails before its arguments, and these before the filter. -/
theorem raises_of_filter_fails {place : Position} {value : Expr Value} {name : String}
    {args : List (Expr Value)} {f : Filter} (known : r.filters.get? name = some f)
    (values : (evaluate host r (strict && !lenientFilters.contains name) value).Fails w E →
      ∃ o, Raises host r (strict && !lenientFilters.contains name) value w o E)
    (arguments : ∀ w', (evaluateAll host r strict args).Fails w' E →
      ∃ o, AllRaise host r strict args w' o E)
    (h : (evaluate host r strict (.filter place value name args)).Fails w E) :
    ∃ o, Raises host r strict (.filter place value name args) w o E := by
  rw [evaluate, known] at h
  dsimp only at h
  rcases Run.fails_bind.mp h with h | ⟨v, w₁, ok, h⟩
  · obtain ⟨o, h⟩ := values h
    exact ⟨o, .value known h⟩
  · rcases Run.fails_bind.mp h with h | ⟨vs, w₂, oks, h⟩
    · obtain ⟨o, before, arg, after, vs, w₂, rfl, oks, h⟩ := arguments w₁ h
      exact ⟨o, .argument known ok oks h⟩
    · exact ⟨_, .filter known ok oks h⟩

/-- A path fails in the object it is read from, in the reading, or for want of a value. -/
theorem raises_of_member_fails {place : Position} {object : Expr Value} {segment : String}
    (objects : (evaluate host r strict object).Fails w E → ∃ o, Raises host r strict object w o E)
    (h : (evaluate host r strict (.member place object segment)).Fails w E) :
    ∃ o, Raises host r strict (.member place object segment) w o E := by
  rw [evaluate] at h
  rcases Run.fails_bind.mp h with h | ⟨v, w₁, ok, h⟩
  · obtain ⟨o, h⟩ := objects h
    exact ⟨o, .object h⟩
  · rcases Run.fails_bind.mp h with h | ⟨found, w₂, reads, h⟩
    · exact ⟨_, .reading ok h⟩
    cases found with
    | some v => cases h
    | none =>
      cases strict with
      | false => cases h
      | true =>
        dsimp only at h
        rw [if_pos rfl, Run.fails_get_bind, Run.fails_bind] at h
        rcases h with h | ⟨name, w₃, describes, h⟩
        · obtain ⟨f, describes, rfl⟩ := Run.fails_ofExcept.mp h
          exact ⟨_, .undescribed ok reads describes⟩
        · obtain ⟨describes, rfl⟩ := Run.exec_ofExcept_eq_ok.mp describes
          obtain ⟨o, h⟩ := undefined_fails.mp h
          exact ⟨o, .path ok reads describes h⟩

mutual

/-- An evaluation that fails does so in one of its steps.  Induction on the expression. -/
theorem raises_of_fails (strict : Bool) : ∀ (e : Expr Value) {w : World} {E : Failure},
    (evaluate host r strict e).Fails w E → ∃ o, Raises host r strict e w o E
  | .const _ _, w, E, h => by
    rw [evaluate] at h
    cases h
  | .name _ name, w, E, h => by
    rw [evaluate, Run.fails_get_bind] at h
    split at h
    · cases h
    · next unbound =>
      split at h
      · next hstrict =>
        obtain ⟨o, h⟩ := undefined_fails.mp h
        exact ⟨o, hstrict ▸ .name unbound h⟩
      · cases h
  | .member _ object _, _, _, h => raises_of_member_fails (raises_of_fails strict object) h
  | .not _ operand, w, E, h => by
    rw [evaluate] at h
    rcases Run.fails_bind.mp h with h | ⟨v, w₁, -, h⟩
    · obtain ⟨o, h⟩ := raises_of_fails strict operand h
      exact ⟨o, .operand h⟩
    · cases h
  | .filter place value name args, w, E, h => by
    rcases known : r.filters.get? name with - | f
    · rw [evaluate, known] at h
      exact ⟨_, .unknown known h⟩
    · exact raises_of_filter_fails known (raises_of_fails _ value)
        (fun _ => allRaise_of_fails strict args) h
  | .bare _, w, E, h => by
    rw [evaluate] at h
    obtain rfl := Run.fails_fail.mp h
    exact ⟨_, .bare⟩
  | .node _, w, E, h => by
    rw [evaluate] at h
    obtain rfl := Run.fails_fail.mp h
    exact ⟨_, .node⟩

theorem allRaise_of_fails (strict : Bool) : ∀ (es : List (Expr Value)) {w : World} {E : Failure},
    (evaluateAll host r strict es).Fails w E → ∃ o, AllRaise host r strict es w o E
  | [], w, E, h => by
    rw [evaluateAll] at h
    cases h
  | e :: es, w, E, h => by
    rw [evaluateAll] at h
    rcases Run.fails_bind.mp h with h | ⟨v, w', ok, h⟩
    · obtain ⟨o, h⟩ := raises_of_fails strict e h
      exact ⟨o, .head h⟩
    · rcases Run.fails_bind.mp h with h | ⟨vs, w'', -, h⟩
      · obtain ⟨o, h⟩ := allRaise_of_fails strict es h
        exact ⟨o, .tail ok h⟩
      · cases h

end

/-- When one of some expressions fails, after those before it succeeded, all together fail. -/
theorem evaluateAll_fails {before after : List (Expr Value)} {vs : List Value}
    (oks : (evaluateAll host r strict before).exec w = (.ok vs, w'))
    (h : (evaluate host r strict e).Fails w' E) :
    (evaluateAll host r strict (before ++ e :: after)).Fails w E := by
  induction before generalizing w vs with
  | nil =>
    rw [evaluateAll] at oks
    cases oks
    rw [List.nil_append, evaluateAll]
    exact Run.fails_bind.mpr (.inl h)
  | cons first before ih =>
    rw [evaluateAll] at oks
    obtain ⟨v, w₁, ok, oks⟩ := Run.exec_bind_eq_ok oks
    obtain ⟨vs', w₂, oks, last⟩ := Run.exec_bind_eq_ok oks
    cases last
    rw [List.cons_append, evaluateAll]
    exact Run.fails_bind.mpr (.inr ⟨v, w₁, ok, Run.fails_bind.mpr (.inl (ih oks))⟩)

/-- When a step fails, the evaluation does.  Induction on how the failure arises. -/
theorem Raises.fails (h : Raises host r strict e w o E) : (evaluate host r strict e).Fails w E := by
  induction h with
  | name unbound missing =>
    rw [evaluate, Run.fails_get_bind, unbound]
    exact undefined_fails.mpr ⟨_, missing⟩
  | object _ ih =>
    rw [evaluate]
    exact Run.fails_bind.mpr (.inl ih)
  | reading ok reads =>
    rw [evaluate]
    exact Run.fails_bind.mpr (.inr ⟨_, _, ok, Run.fails_bind.mpr (.inl reads)⟩)
  | undescribed ok absent describes =>
    rw [evaluate]
    refine Run.fails_bind.mpr (.inr ⟨_, _, ok, Run.fails_bind.mpr (.inr ⟨_, _, absent, ?_⟩)⟩)
    refine Run.fails_get_bind.mpr (Run.fails_bind.mpr (.inl ?_))
    exact Run.fails_ofExcept.mpr ⟨_, describes, rfl⟩
  | @path _ _ _ name _ _ _ w' _ _ ok absent describes missing =>
    rw [evaluate]
    refine Run.fails_bind.mpr (.inr ⟨_, _, ok, Run.fails_bind.mpr (.inr ⟨_, _, absent, ?_⟩)⟩)
    refine Run.fails_get_bind.mpr (Run.fails_bind.mpr (.inr ⟨name, w', ?_, ?_⟩))
    · exact Run.exec_ofExcept_eq_ok.mpr ⟨describes, rfl⟩
    · exact undefined_fails.mpr ⟨_, missing⟩
  | operand _ ih =>
    rw [evaluate]
    exact Run.fails_bind.mpr (.inl ih)
  | unknown notKnown fails =>
    rw [evaluate, notKnown]
    exact fails
  | value known _ ih =>
    rw [evaluate, known]
    exact Run.fails_bind.mpr (.inl ih)
  | argument known ok oks _ ih =>
    rw [evaluate, known]
    refine Run.fails_bind.mpr (.inr ⟨_, _, ok, Run.fails_bind.mpr (.inl ?_)⟩)
    exact evaluateAll_fails oks ih
  | filter known ok oks fails =>
    rw [evaluate, known]
    exact Run.fails_bind.mpr (.inr ⟨_, _, ok, Run.fails_bind.mpr (.inr ⟨_, _, oks, fails⟩)⟩)
  | bare =>
    rw [evaluate]
    rfl
  | node =>
    rw [evaluate]
    rfl

theorem AllRaise.fails {es : List (Expr Value)} (h : AllRaise host r strict es w o E) :
    (evaluateAll host r strict es).Fails w E := by
  obtain ⟨before, arg, after, vs, w', rfl, oks, h⟩ := h
  exact evaluateAll_fails oks h.fails

/-- Named expressions fail just as the expressions do. -/
theorem evaluateNamed_fails {es : List (String × Expr Value)} :
    (evaluateNamed host r es).Fails w E ↔
      (evaluateAll host r r.strict (es.map (·.2))).Fails w E := by
  induction es generalizing w with
  | nil =>
    rw [List.map_nil, evaluateAll, evaluateNamed]
    constructor
    · intro h
      cases h
    · intro h
      cases h
  | cons e es ih =>
    rw [List.map_cons, evaluateAll, evaluateNamed, Run.fails_bind, Run.fails_bind]
    refine or_congr_right (exists_congr fun v => exists_congr fun w' => and_congr_right fun _ => ?_)
    rw [Run.fails_bind, Run.fails_bind, ih]
    simp only [Run.not_fails_pure, and_false, exists_false, or_false]

/-! ### Names without a value -/

/-- The renders under way are the same. -/
def SameRenderings (w w' : World) : Prop := w'.renderings = w.renderings

instance : IsPreorder World SameRenderings where
  refl _ := rfl
  trans _ _ _ h h' := Eq.trans h' h

theorem filtersWithin_sameRenderings (host : Host) : host.FiltersWithin SameRenderings :=
  fun _ _ _ => rfl

theorem same_renderings_evaluate {v : Value}
    (ok : (evaluate host r strict e).exec w = (.ok v, w')) : SameRenderings w w' := by
  have h := (evaluate_keeps (r := r) (filtersWithin_sameRenderings host) strict e w).state
  rwa [ok] at h

theorem same_renderings_evaluateAll {es : List (Expr Value)} {vs : List Value}
    (oks : (evaluateAll host r strict es).exec w = (.ok vs, w')) : SameRenderings w w' := by
  have h := (evaluateAll_keeps (r := r) (filtersWithin_sameRenderings host) strict es w).state
  rwa [oks] at h

theorem same_renderings_memberOf {v : Value} {segment : String} {found : Option Value}
    (ok : (memberOf v segment).exec w = (.ok found, w')) : SameRenderings w w' := by
  have h := (keeps_memberOf (R := SameRenderings) v segment w).state
  rwa [ok] at h

/-- The report of a name without a value tells what is known of the innermost render. -/
def Told (w : World) (E : Failure) : Prop :=
  ∃ name available, E = .of (.undefinedName (w.undefinedName name available))

theorem Told.of_same (h : SameRenderings w w') (told : Told w' E) : Told w E := by
  obtain ⟨name, available, rfl⟩ := told
  have hr : w'.rendering? = w.rendering? := congrArg List.head? h
  exact ⟨name, available, by rw [World.undefinedName, World.undefinedName, hr]⟩

/-- A report of a name without a value has the place of the innermost render. -/
def Places (w : World) (E : Failure) : Prop :=
  ∃ u, E = .of (.undefinedName u) ∧
    u.templateName = w.rendering?.bind (·.templateName) ∧ u.line = w.rendering?.map (·.line)

theorem Told.places (told : Told w E) : Places w E := by
  obtain ⟨name, available, rfl⟩ := told
  exact ⟨_, rfl, rfl, rfl⟩

theorem Missing.told (h : Missing slot name w o E) (ho : o = .missing) : Told w E := by
  cases h with
  | reported => exact ⟨_, _, rfl⟩
  | unwritten => cases ho

/-- The report tells what was known when the evaluation began.  Induction on how it arises. -/
theorem Raises.told (h : Raises host r strict e w o E) (ho : o = .missing) : Told w E := by
  induction h with
  | name unbound missing => exact missing.told ho
  | path ok absent _ missing =>
    exact ((missing.told ho).of_same (same_renderings_memberOf absent)).of_same
      (same_renderings_evaluate ok)
  | object _ ih | operand _ ih | value _ _ ih => exact ih ho
  | argument _ ok oks _ ih =>
    exact ((ih ho).of_same (same_renderings_evaluateAll oks)).of_same (same_renderings_evaluate ok)
  | reading | undescribed | unknown | filter | bare | node => cases ho

end Stencil
