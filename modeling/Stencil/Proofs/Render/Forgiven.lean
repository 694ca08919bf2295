/-
Stencil/Proofs/Render/Forgiven.lean

Which names without a value are forgiven.  The filters `default` and `d` take what has no value, so
what they are applied to is evaluated leniently, in all its parts; their arguments are evaluated as
they are where the filter stands.  So whether a part of an expression is forgiven can be seen from
the steps that lead to it (`forgiven`).

The evaluation of an expression *comes to* a part of it in some world with something left to do
(`ComesTo`).  The rest is a function of the part's value, so that it can be said that the evaluation
goes on with one: from where it comes to the part, it is the evaluation of the part and then the
rest (`ComesTo.exec`).  What the steps say is all that the outside does to a part.

Filters and the attributes of things can raise what they like, the report of a name without a value
too.  That they do not is asked of the evaluation at hand (`Honest`).
-/
import Stencil.Proofs.Render.Lenient

namespace Stencil

variable {host : Host} {r : Renderer} {strict : Bool} {e x : Expr Value} {w w' w'' : World}
  {o : Origin} {E : Failure} {v : Value}

/-! ### Parts of expressions -/

/-- A step from an expression to a part of it. -/
inductive Descent where
  | object
  | operand
  | value (filter : String)
  | argument (filter : String) (index : Nat)
  deriving DecidableEq, Repr

/-- Whether some of the steps goes to what a filter is applied to that takes what has no value. -/
def forgiven (steps : List Descent) : Bool :=
  steps.any fun
    | .value filter => lenientFilters.contains filter
    | .object | .operand | .argument _ _ => false

/-- What is left of a path when the object has a value. -/
def resolved (slot : Nat) (strict : Bool) (path : Expr Value) (segment : String) (v : Value) :
    Run World Value := do
  match ← memberOf v segment with
  | some found => return found
  | none =>
    if strict then do
      let w ← get
      let name ← Run.ofExcept (path.describe w.heap)
      undefined slot name
    else pure .absent

/-- What is left of a negation when the operand has a value. -/
def negated (v : Value) : Run World Value := do
  let w ← get
  return .bool (!w.heap.truth v)

/-- What is left of a filter when what it is applied to and some arguments have values. -/
def applied (host : Host) (r : Renderer) (strict : Bool) (f : Filter) (before : List Value)
    (after : List (Expr Value)) : Run World Value := do
  let vs ← evaluateAll host r strict after
  onHeap (host.filter f (before ++ vs))

/-- The evaluation of an expression comes to the part `x` in the world `w'`, along some steps and
with something left to do with the value of the part. -/
inductive ComesTo (host : Host) (r : Renderer) (x : Expr Value) (w' : World) :
    (strict : Bool) → Expr Value → World → List Descent → (Value → Run World Value) → Prop
  | here {strict : Bool} : ComesTo host r x w' strict x w' [] pure
  | object {strict : Bool} {place : Position} {object : Expr Value} {segment : String} {w : World}
      {steps : List Descent} {rest : Value → Run World Value}
      (h : ComesTo host r x w' strict object w steps rest) :
      ComesTo host r x w' strict (.member place object segment) w (.object :: steps)
        fun u => rest u >>= resolved r.slot strict (.member place object segment) segment
  | operand {strict : Bool} {place : Position} {operand : Expr Value} {w : World}
      {steps : List Descent} {rest : Value → Run World Value}
      (h : ComesTo host r x w' strict operand w steps rest) :
      ComesTo host r x w' strict (.not place operand) w (.operand :: steps) fun u => rest u >>= negated
  | value {strict : Bool} {place : Position} {value : Expr Value} {name : String}
      {args : List (Expr Value)} {f : Filter} {w : World} {steps : List Descent}
      {rest : Value → Run World Value} (known : r.filters.get? name = some f)
      (h : ComesTo host r x w' (strict && !lenientFilters.contains name) value w steps rest) :
      ComesTo host r x w' strict (.filter place value name args) w (.value name :: steps)
        fun u => rest u >>= fun v => applied host r strict f [v] args
  | argument {strict : Bool} {place : Position} {value arg : Expr Value} {name : String}
      {before after : List (Expr Value)} {f : Filter} {v : Value} {vs : List Value}
      {w w₁ w₂ : World} {steps : List Descent} {rest : Value → Run World Value}
      (known : r.filters.get? name = some f)
      (ok : (evaluate host r (strict && !lenientFilters.contains name) value).exec w = (.ok v, w₁))
      (oks : (evaluateAll host r strict before).exec w₁ = (.ok vs, w₂))
      (h : ComesTo host r x w' strict arg w₂ steps rest) :
      ComesTo host r x w' strict (.filter place value name (before ++ arg :: after)) w
        (.argument name before.length :: steps)
        fun u => rest u >>= fun v' => applied host r strict f (v :: (vs ++ [v'])) after

/-- The value of a part is wanting: a name is bound in no frame, or what a path is read from has
nothing of the name of the segment. -/
inductive Lacks (host : Host) (r : Renderer) (strict : Bool) : Expr Value → World → World → Prop
  | name {place : Position} {name : String} {w : World}
      (unbound : ∀ f ∈ (w.contextIn r.slot).frames, f.get? (.text name) = none) :
      Lacks host r strict (.name place name) w w
  | path {place : Position} {object : Expr Value} {segment : String} {v : Value} {w w' : World}
      (ok : (evaluate host r strict object).exec w = (.ok v, w'))
      (absent : (memberOf v segment).exec w' = (.ok none, w')) :
      Lacks host r strict (.member place object segment) w w'

/-- The failure is the report of a part without a value, by its description. -/
def Reports (slot : Nat) (x : Expr Value) (w : World) (E : Failure) : Prop :=
  ∃ name available, x.describe w.heap = .ok name ∧
    (w.contextIn slot).names.mapM (·.candidate w.heap) = .ok available ∧
    E = .of (.undefinedName (w.undefinedName name available))

/-- The failure is that the part without a value, or a name that there is, cannot be written. -/
def Unwritten (slot : Nat) (x : Expr Value) (w : World) (E : Failure) : Prop :=
  ∃ f, E = .of f ∧ f.IsForeign ∧ (x.describe w.heap = .error f ∨
    (w.contextIn slot).names.mapM (·.candidate w.heap) = .error f)

/-! ### What the outside does to a part -/

theorem forgiven_value (name : String) (steps : List Descent) :
    (strict && !lenientFilters.contains name && !forgiven steps)
      = (strict && !forgiven (.value name :: steps)) := by
  rw [forgiven, forgiven, List.any_cons, Bool.not_or, Bool.and_assoc]

theorem evaluate_member (strict : Bool) (place : Position) (object : Expr Value) (segment : String) :
    evaluate host r strict (.member place object segment)
      = evaluate host r strict object
          >>= resolved r.slot strict (.member place object segment) segment := by
  rw [evaluate]
  rfl

theorem evaluate_filter {name : String} {f : Filter} (known : r.filters.get? name = some f)
    (strict : Bool) (place : Position) (value : Expr Value) (args : List (Expr Value)) :
    evaluate host r strict (.filter place value name args)
      = evaluate host r (strict && !lenientFilters.contains name) value
          >>= fun v => applied host r strict f [v] args := by
  rw [evaluate, known]
  rfl

theorem evaluateAll_append (before after : List (Expr Value)) :
    evaluateAll host r strict (before ++ after) = do
      let vs ← evaluateAll host r strict before
      let us ← evaluateAll host r strict after
      return vs ++ us := by
  induction before with
  | nil => simp [evaluateAll]
  | cons e before ih => simp [evaluateAll, ih]

/-- Sequences that begin alike go on alike. -/
theorem exec_bind_of_exec {σ α β : Type} {act act' : Run σ α} {s s' : σ}
    (h : act.exec s = act'.exec s') (f : α → Run σ β) :
    (act >>= f).exec s = (act' >>= f).exec s' := by
  rw [Run.exec_bind, Run.exec_bind, h]

/-- From where it comes to a part, an evaluation is that of the part and then the rest.  Induction
along the steps. -/
theorem ComesTo.exec {steps : List Descent} {rest : Value → Run World Value}
    (h : ComesTo host r x w' strict e w steps rest) :
    (evaluate host r strict e).exec w
      = (evaluate host r (strict && !forgiven steps) x >>= rest).exec w' := by
  induction h with
  | here => rw [bind_pure, forgiven, List.any_nil, Bool.not_false, Bool.and_true]
  | object _ ih =>
    rw [evaluate_member, exec_bind_of_exec ih, bind_assoc]
    rfl
  | operand _ ih =>
    rw [evaluate, exec_bind_of_exec ih, bind_assoc]
    rfl
  | value known _ ih =>
    rw [evaluate_filter known, exec_bind_of_exec ih, bind_assoc, forgiven_value]
  | argument known ok oks _ ih =>
    rw [evaluate_filter known, Run.exec_bind_ok ok, applied, evaluateAll_append, bind_assoc,
      Run.exec_bind_ok oks, evaluateAll, bind_assoc, bind_assoc, exec_bind_of_exec ih, bind_assoc]
    simp [applied, forgiven]

/-! ### Parts without a value -/

theorem findIn_eq_none_iff {α : Type} {name : Name} {fs : List (Frame α)} :
    Context.findIn name fs = none ↔ ∀ f ∈ fs, f.get? name = none := by
  induction fs with
  | nil => exact ⟨nofun, fun _ => rfl⟩
  | cons f fs ih => rw [Context.findIn, Option.or_eq_none_iff, ih, List.forall_mem_cons]

theorem lookup?_eq_none_iff {α : Type} {name : Name} {c : Context α} :
    c.lookup? name = none ↔ ∀ f ∈ c.frames, f.get? name = none := by
  rw [Context.lookup?, findIn_eq_none_iff, Context.frames]
  simp only [List.mem_reverse]

/-- To read a segment changes nothing. -/
theorem memberOf_exec {segment : String} {found : Option Value}
    (h : (memberOf v segment).exec w = (.ok found, w')) : w' = w := by
  rw [memberOf] at h
  split at h
  · exact (Prod.mk.inj h).2.symm
  · rw [Run.exec_get_bind] at h
    exact (Run.exec_ofExcept_eq_ok.mp h).2

theorem onlyForeign_candidate (h : Heap) (name : Name) : OnlyForeign (name.candidate h) := by
  cases name with
  | text s => exact .ok _
  | key v =>
    rw [Name.candidate]
    split
    · exact (h.onlyForeign_text v).bind fun _ => .ok _
    · exact .foreign _ _

/-- How a strict evaluation ends where a value is wanting: by the report, or because something cannot
be written. -/
theorem Missing.reports {name : String} (h : Missing r.slot name w o E)
    (describes : x.describe w.heap = .ok name) :
    (o = .missing ∧ Reports r.slot x w E) ∨ Unwritten r.slot x w E := by
  cases h with
  | reported names => exact .inl ⟨rfl, _, _, describes, names, rfl⟩
  | unwritten names =>
    have hforeign := OnlyForeign.mapM (w.contextIn r.slot).names (onlyForeign_candidate w.heap)
    exact .inr ⟨_, rfl, hforeign _ names, .inr names⟩

theorem Unwritten.not_undefined (h : Unwritten r.slot x w E) : ¬ E.fault.undefined := by
  obtain ⟨f, rfl, hf, -⟩ := h
  exact hf.not_undefined

/-- A lenient evaluation of a part whose value is wanting gives that of nothing. -/
theorem Lacks.exec (h : Lacks host r false x w w') :
    (evaluate host r false x).exec w = (.ok .absent, w') := by
  cases h with
  | name unbound =>
    rw [evaluate, Run.exec_get_bind, lookup?_eq_none_iff.mpr unbound]
    rfl
  | path ok absent =>
    rw [evaluate_member, Run.exec_bind_ok ok, resolved, Run.exec_bind_ok absent]
    rfl

/-- A strict evaluation of a part whose value is wanting fails. -/
theorem Lacks.fails (h : Lacks host r true x w w') :
    ∃ E, (evaluate host r true x).Fails w E ∧ (Reports r.slot x w' E ∨ Unwritten r.slot x w' E) := by
  have hmissing : ∀ name, ∃ o E, Missing r.slot name w' o E := by
    intro name
    rcases hnames : (w'.contextIn r.slot).names.mapM (·.candidate w'.heap) with f | available
    · exact ⟨_, _, .unwritten hnames⟩
    · exact ⟨_, _, .reported hnames⟩
  cases h with
  | @name _ name _ unbound =>
    obtain ⟨o, E, missing⟩ := hmissing name
    refine ⟨E, (Raises.name (lookup?_eq_none_iff.mpr unbound) missing).fails, ?_⟩
    exact (missing.reports rfl).imp_left And.right
  | @path place object segment v _ _ ok absent =>
    rcases describes : (Expr.member place object segment).describe w'.heap with f | name
    · refine ⟨_, (Raises.undescribed ok absent describes).fails, .inr ⟨f, rfl, ?_, .inl describes⟩⟩
      exact Heap.onlyForeign_describe _ _ f describes
    · obtain ⟨o, E, missing⟩ := hmissing name
      refine ⟨E, (Raises.path ok absent describes missing).fails, ?_⟩
      exact (missing.reports describes).imp_left And.right

/-- A report of a name without a value that comes neither out of a filter nor of an attribute is that
of a part that is not forgiven.  Induction on how the failure arises. -/
theorem Raises.comesTo (h : Raises host r strict e w o E) (hE : E.fault.undefined)
    (filter : o ≠ .filter) (reading : o ≠ .reading) :
    ∃ x w₁ w₂ steps rest, ComesTo host r x w₁ strict e w steps rest ∧
      (strict && !forgiven steps) = true ∧ Lacks host r true x w₁ w₂ ∧ Reports r.slot x w₂ E := by
  induction h with
  | @name place name w o E unbound missing =>
    have hreports := missing.reports (x := .name place name) rfl
    obtain ⟨-, hreports⟩ := hreports.resolve_right fun h => h.not_undefined hE
    exact ⟨_, w, w, [], _, .here, rfl, .name (lookup?_eq_none_iff.mp unbound), hreports⟩
  | @path place object segment name v w w₁ w₂ o E ok absent describes missing =>
    obtain rfl := memberOf_exec absent
    obtain ⟨-, hreports⟩ := (missing.reports describes).resolve_right fun h => h.not_undefined hE
    exact ⟨_, w, _, [], _, .here, rfl, .path ok absent, hreports⟩
  | object _ ih =>
    obtain ⟨x, w₁, w₂, steps, rest, comes, exposed, hx⟩ := ih hE filter reading
    exact ⟨x, w₁, w₂, _, _, .object comes, exposed, hx⟩
  | operand _ ih =>
    obtain ⟨x, w₁, w₂, steps, rest, comes, exposed, hx⟩ := ih hE filter reading
    exact ⟨x, w₁, w₂, _, _, .operand comes, exposed, hx⟩
  | value known _ ih =>
    obtain ⟨x, w₁, w₂, steps, rest, comes, exposed, hx⟩ := ih hE filter reading
    exact ⟨x, w₁, w₂, _, _, .value known comes, forgiven_value _ _ ▸ exposed, hx⟩
  | argument known ok oks _ ih =>
    obtain ⟨x, w₁, w₂, steps, rest, comes, exposed, hx⟩ := ih hE filter reading
    exact ⟨x, w₁, w₂, _, _, .argument known ok oks comes, exposed, hx⟩
  | @undescribed place object segment v w w₁ w₂ f ok absent describes =>
    exact absurd hE (Heap.onlyForeign_describe _ _ f describes).not_undefined
  | unknown _ fails => exact absurd hE (defined_unknown _ _ _ _ _ _ _ fails)
  | filter => exact absurd rfl filter
  | reading => exact absurd rfl reading
  | bare | node => exact absurd hE Bool.false_ne_true

/-! ### Defaults -/

/-- What the built-in `default` makes of the value of an operand and of its own arguments. -/
structure Defaults (host : Host) (r : Renderer) (place : Position) (value : Expr Value)
    (name : String) (args : List (Expr Value)) (w : World) : Prop where
  /-- It never fails by the report of a name without a value. -/
  defined : ∀ E, (evaluate host r true (.filter place value name args)).Fails w E →
    ¬ E.fault.undefined
  /-- It gives the default where the operand leniently has no value, or a false one when that is
  asked for, and else the value of the operand. -/
  result : ∀ u w', (evaluate host r true (.filter place value name args)).exec w = (.ok u, w') ↔
    ∃ v w₁ vs, (evaluate host r false value).exec w = (.ok v, w₁) ∧
      (evaluateAll host r true args).exec w₁ = (.ok vs, w') ∧ vs.length ≤ 2 ∧
      u = if v = .absent ∨ ((vs[1]?).any w'.heap.truth ∧ ¬ w'.heap.truth v)
        then vs.getD 0 (.str "") else v

/-- The built-in `default` takes up to two arguments besides the operand, and changes nothing. -/
theorem exec_default {vs : List Value} {u : Value} :
    (onHeap (Filter.default.apply (v :: vs))).exec w = (.ok u, w') ↔ vs.length ≤ 2 ∧ w' = w ∧
      u = if v = .absent ∨ ((vs[1]?).any w.heap.truth ∧ ¬ w.heap.truth v)
        then vs.getD 0 (.str "") else v := by
  have hmost : 3 < (v :: vs).length ↔ ¬ vs.length ≤ 2 := by
    rw [List.length_cons]
    omega
  have happly : Filter.default.apply (v :: vs) = if 3 < (v :: vs).length
      then Run.fail (Filter.default.tooMany 3 (v :: vs).length) else Filter.default.applyTo v vs := rfl
  rw [onHeap, Run.exec_within, happly]
  by_cases hlen : vs.length ≤ 2
  · rw [if_neg (mt hmost.mp (not_not.mpr hlen)), Filter.applyTo, Run.exec_get_bind, Run.exec_pure,
      Filter.orDefault]
    simp only [Bool.or_eq_true, Bool.and_eq_true, decide_eq_true_eq, Bool.not_eq_true', hlen, true_and,
      Bool.not_eq_true, Prod.mk.injEq, Except.ok.injEq]
    exact and_comm.trans (and_congr eq_comm eq_comm)
  · rw [if_pos (hmost.mpr hlen), Run.exec_fail]
    constructor
    · intro h
      cases h
    · intro h
      exact absurd h.1 hlen

/-- When a lenient evaluation fails by the report of a name without a value, it comes out of a filter
or of an attribute. -/
theorem Raises.origin_of_lenient (h : Raises host r false e w o E) (hE : E.fault.undefined) :
    o = .filter ∨ o = .reading := by
  by_contra hne
  obtain ⟨filter, reading⟩ := not_or.mp hne
  obtain ⟨x, w₁, w₂, steps, rest, -, exposed, -⟩ := h.comesTo hE filter reading
  cases exposed

/-- What the application of a filter fails in: what it is applied to, the arguments, or itself. -/
theorem Raises.filter_cases {place : Position} {value : Expr Value} {name : String}
    {args : List (Expr Value)} {f : Filter} (known : r.filters.get? name = some f)
    (h : Raises host r strict (.filter place value name args) w o E) :
    Raises host r (strict && !lenientFilters.contains name) value w o E ∨
    ∃ v w₁, (evaluate host r (strict && !lenientFilters.contains name) value).exec w = (.ok v, w₁) ∧
      (AllRaise host r strict args w₁ o E ∨
        o = .filter ∧ ∃ vs w₂, (evaluateAll host r strict args).exec w₁ = (.ok vs, w₂)) := by
  cases h with
  | unknown notKnown => cases known.symm.trans notKnown
  | value _ h => exact .inl h
  | argument _ ok oks h => exact .inr ⟨_, _, ok, .inl ⟨_, _, _, _, _, rfl, oks, h⟩⟩
  | filter _ ok oks => exact .inr ⟨_, _, ok, .inr ⟨rfl, _, _, oks⟩⟩

/-- No filter and no attribute raises the report of a name without a value in a strict evaluation. -/
def Honest (host : Host) (r : Renderer) (e : Expr Value) (w : World) : Prop :=
  ∀ o E, Raises host r true e w o E → o = .filter ∨ o = .reading → ¬ E.fault.undefined

theorem defaults_of_honest {place : Position} {value : Expr Value} {name : String}
    {args : List (Expr Value)} (honest : Honest host r (.filter place value name args) w)
    (lenient : name ∈ lenientFilters) (known : r.filters.get? name = some .default)
    (builtin : ∀ vs, host.filter .default vs = Filter.default.apply vs)
    (resolvable : ∀ v w₁ E, (evaluate host r false value).exec w = (.ok v, w₁) →
      (evaluateAll host r true args).Fails w₁ E → ¬ E.fault.undefined) :
    Defaults host r place value name args w := by
  have hstrict : (true && !lenientFilters.contains name) = false := by simp [lenient]
  constructor
  · intro E hfails hE
    obtain ⟨o, h⟩ := raises_of_fails true _ hfails
    have hne : ¬ (o = .filter ∨ o = .reading) := fun ho => honest o E h ho hE
    rcases h.filter_cases known with h | ⟨v, w₁, ok, h | ⟨ho, -⟩⟩
    · exact hne ((hstrict ▸ h).origin_of_lenient hE)
    · exact resolvable v w₁ E (hstrict ▸ ok) h.fails hE
    · exact hne (.inl ho)
  · intro u w'
    rw [evaluate_filter known, hstrict]
    constructor
    · intro hok
      obtain ⟨v, w₁, ok, hok⟩ := Run.exec_bind_eq_ok hok
      obtain ⟨vs, w₂, oks, hok⟩ := Run.exec_bind_eq_ok hok
      rw [builtin] at hok
      obtain ⟨hlen, rfl, hu⟩ := exec_default.mp hok
      exact ⟨v, w₁, vs, ok, oks, hlen, hu⟩
    · rintro ⟨v, w₁, vs, ok, oks, hlen, hu⟩
      rw [Run.exec_bind_ok ok, applied, Run.exec_bind_ok oks, builtin]
      exact exec_default.mpr ⟨hlen, rfl, hu⟩

/-! ### Forgiven parts -/

/-- Which names and paths without a value an evaluation fails by, and which it forgives. -/
structure Forgives (host : Host) (r : Renderer) (e : Expr Value) (w : World) : Prop where
  /-- It fails by the report of a name without a value only where it comes to a part whose value is
  wanting and that is not forgiven; what is reported is that part. -/
  reports : ∀ E, (evaluate host r true e).Fails w E → E.fault.undefined →
    ∃ x w₁ w₂ steps rest, ComesTo host r x w₁ true e w steps rest ∧ forgiven steps = false ∧
      Lacks host r true x w₁ w₂ ∧ Reports r.slot x w₂ E
  /-- Where it comes to one that is forgiven, it goes on with the value of nothing. -/
  goesOn : ∀ x w₁ w₂ steps rest, ComesTo host r x w₁ true e w steps rest → forgiven steps = true →
    Lacks host r false x w₁ w₂ → (evaluate host r true e).exec w = (rest .absent).exec w₂
  /-- Where it comes to one that is not, it fails there, by its report if that can be written. -/
  exposed : ∀ x w₁ w₂ steps rest, ComesTo host r x w₁ true e w steps rest → forgiven steps = false →
    Lacks host r true x w₁ w₂ → ∃ E, (evaluate host r true e).Fails w E ∧
      (Reports r.slot x w₂ E ∨ Unwritten r.slot x w₂ E)
  /-- The built-in `default` does what it should, when its own arguments have values. -/
  defaults : ∀ place value name args, e = .filter place value name args →
    name ∈ lenientFilters → r.filters.get? name = some .default →
    (∀ vs, host.filter .default vs = Filter.default.apply vs) →
    (∀ v w₁ E, (evaluate host r false value).exec w = (.ok v, w₁) →
      (evaluateAll host r true args).Fails w₁ E → ¬ E.fault.undefined) →
    Defaults host r place value name args w

/-- A name or path without a value is forgiven if and only if it is in what `default` or `d` is
applied to, at any depth. -/
theorem evaluate_forgives (honest : Honest host r e w) : Forgives host r e w where
  reports E hfails hE := by
    obtain ⟨o, h⟩ := raises_of_fails true e hfails
    have hne := not_or.mp fun ho => honest o E h ho hE
    obtain ⟨x, w₁, w₂, steps, rest, comes, exposed, hx⟩ := h.comesTo hE hne.1 hne.2
    exact ⟨x, w₁, w₂, steps, rest, comes, by simpa using exposed, hx⟩
  goesOn x w₁ w₂ steps rest comes hsteps lacks := by
    have hexec := comes.exec
    rw [hsteps] at hexec
    exact hexec.trans (Run.exec_bind_ok lacks.exec)
  exposed x w₁ w₂ steps rest comes hsteps lacks := by
    obtain ⟨E, hfails, hE⟩ := lacks.fails
    refine ⟨E, ?_, hE⟩
    have hexec := comes.exec
    rw [hsteps] at hexec
    rw [Run.Fails, hexec]
    exact Run.fails_bind.mpr (.inl hfails)
  defaults place value name args he := by
    subst he
    exact defaults_of_honest honest

/-- Of two names without a value, one is in the argument of a filter that `default` is applied to, at
the end of a path, and is forgiven; the other is an argument of `d` itself, and is reported. -/
theorem evaluate_forgives_argument :
    let host : Host := ⟨fun _ _ _ _ => pure .absent, Filter.apply, fun _ => Copying.deepCopy, 0⟩
    let r : Renderer := ⟨0, true, .deep, ⟨("show", .display) :: Filter.builtin.entries⟩, .empty⟩
    let p : Position := ⟨1, 0⟩
    let shown : Expr Value := .filter p (.name p "a") "show" [.member p (.name p "b") "c"]
    let e : Expr Value := .filter p shown "default" [.const p (.int 1)]
    let e' : Expr Value := .filter p (.name p "a") "d" [.name p "b"]
    let w := World.ofTags [] []
    (Honest host r e w ∧ Forgives host r e w ∧
      ((evaluate host r true e).exec w).1 = .ok (.str "[None, None]")) ∧
    Honest host r e' w ∧ Forgives host r e' w ∧
      ∃ E, (evaluate host r true e').Fails w E ∧ Reports 0 (.name p "b") w E := by
  intro host r p shown e e' w
  have ok : ((evaluate host r true e).exec w).1 = .ok (.str "[None, None]") := by decide +kernel
  have honest : Honest host r e w := fun o E h _ => by cases h.fails.symm.trans ok
  have unbound : ∀ name, ∀ f ∈ (w.contextIn r.slot).frames, f.get? (.text name) = none := by
    intro name f hf
    obtain rfl : f = .empty := List.mem_singleton.mp hf
    rfl
  have operand : (evaluate host r false (.name p "a")).exec w = (.ok .absent, w) :=
    (Lacks.name (unbound "a")).exec
  have lacks : Lacks host r true (.name p "b") w w := .name (unbound "b")
  have honest' : Honest host r e' w := by
    rintro o E h ho -
    obtain ⟨E', hfails, -⟩ := lacks.fails
    have hargs : (evaluateAll host r true [.name p "b"]).Fails w E' := by
      rw [evaluateAll]
      exact Run.fails_bind.mpr (.inl hfails)
    rcases h.filter_cases rfl with h | ⟨v, w₁, ok, h⟩
    · cases operand.symm.trans h.fails.exec
    obtain ⟨-, rfl⟩ := Prod.mk.inj (operand.symm.trans ok)
    rcases h with ⟨before, x, after, vs, w₂, hsplit, -, h⟩ | ⟨-, vs, w₂, oks⟩
    · obtain rfl : x = .name p "b" :=
        List.mem_singleton.mp (hsplit ▸ List.mem_append_right _ List.mem_cons_self)
      cases h with
      | name _ missing => rcases ho with rfl | rfl <;> cases missing
    · cases hargs.exec.symm.trans oks
  refine ⟨⟨honest, evaluate_forgives honest, ok⟩, honest', evaluate_forgives honest', ?_⟩
  have nothing : (evaluateAll host r true []).exec w = (.ok [], w) := rfl
  have comes : ComesTo host r (.name p "b") w true e' w [.argument "d" 0] _ :=
    .argument (f := .default) rfl operand nothing .here
  obtain ⟨E, hfails, hreports | ⟨f, -, -, hf⟩⟩ :=
    (evaluate_forgives honest').exposed _ _ _ _ _ comes rfl lacks
  · exact ⟨E, hfails, hreports⟩
  · rcases hf with hf | hf <;> cases hf

end Stencil
