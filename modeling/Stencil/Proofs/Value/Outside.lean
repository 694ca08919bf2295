/-
Stencil/Proofs/Value/Outside.lean

What goes wrong with values.  To write a value, to describe an expression, to go
through items and to read a segment of a path can fail, but only with foreign
faults; the one exception is an attribute of a thing that says itself what it
raises (`Heap.RaisedBy`).

The functions recurse along values and trees, so there is a rule for each way
of putting such computations together, and then an induction for each
recursion.
-/
import Stencil.Proofs.Run
import Stencil.Tree.Listing
import Stencil.Value.Iteration
import Stencil.Value.Member
import Stencil.Scope.Name

namespace Stencil

/-- A fault from outside. -/
def Fault.IsForeign (f : Fault) : Prop := ∃ kind text, f = .foreign kind text

/-- If it fails, then with a foreign fault. -/
def OnlyForeign {α : Type} (r : Except Fault α) : Prop := ∀ f, r = .error f → f.IsForeign

namespace OnlyForeign

variable {α β : Type}

theorem ok (a : α) : OnlyForeign (.ok a) := by
  intro f e
  cases e

theorem foreign (kind text : String) : OnlyForeign (.error (.foreign kind text) : Except Fault α) :=
  fun _ e => ⟨kind, text, (Except.error.inj e).symm⟩

theorem bind {r : Except Fault α} {g : α → Except Fault β} (h : OnlyForeign r)
    (hg : ∀ a, OnlyForeign (g a)) : OnlyForeign (r >>= g) := by
  cases r with
  | ok a => exact hg a
  | error f =>
    intro f' e
    obtain rfl : f = f' := Except.error.inj e
    exact h f rfl

theorem mapM {g : α → Except Fault β} (xs : List α) (hg : ∀ x, OnlyForeign (g x)) :
    OnlyForeign (xs.mapM g) := by
  induction xs with
  | nil => exact ok []
  | cons x xs ih =>
    rw [List.mapM_cons]
    exact (hg x).bind fun _ => ih.bind fun _ => ok _

end OnlyForeign

/-! ### Writing -/

namespace Heap

theorem onlyForeign_atom_quoted (a : Atom) : OnlyForeign a.quoted := by
  rw [Atom.quoted]
  cases a.quoted? with
  | some text => exact .ok text
  | none => exact .foreign _ _

/-- Induction on the depth. -/
theorem onlyForeign_quotedIn (h : Heap) (depth : Nat) (around : List Nat) (v : Value) :
    OnlyForeign (h.quotedIn depth around v) := by
  induction depth generalizing around v with
  | zero =>
    cases v with
    | atom a =>
      rw [quotedIn]
      exact onlyForeign_atom_quoted a
    | method _ _ => exact .ok _
    | object _ => exact .ok _
  | succ depth ih =>
    cases v with
    | atom a =>
      rw [quotedIn]
      exact onlyForeign_atom_quoted a
    | method _ _ => exact .ok _
    | object i =>
      rw [quotedIn]
      rcases h.get? i with - | o
      · exact .ok _
      cases o with
      | list xs =>
        dsimp only
        split
        · exact .ok _
        · exact (OnlyForeign.mapM xs (ih _)).bind fun _ => .ok _
      | tuple xs =>
        dsimp only
        split
        · exact .ok _
        · exact (OnlyForeign.mapM xs (ih _)).bind fun _ => .ok _
      | dict es =>
        dsimp only
        split
        · exact .ok _
        · refine (OnlyForeign.mapM es fun e => ?_).bind fun _ => .ok _
          exact (ih _ e.1).bind fun _ => (ih _ e.2).bind fun _ => .ok _
      | generator _ => exact .ok _
      | sealed _ => exact .ok _
      | thing _ => exact .ok _
      | loop l =>
        cases l with
        | some l => exact .ok _
        | none => exact .foreign _ _

theorem onlyForeign_quoted (h : Heap) (v : Value) : OnlyForeign (h.quoted v) :=
  h.onlyForeign_quotedIn _ _ v

theorem onlyForeign_text (h : Heap) (v : Value) : OnlyForeign (h.text v) := by
  rw [text.eq_def]
  split
  · exact .ok _
  · exact h.onlyForeign_quoted v

theorem onlyForeign_printed (h : Heap) (v : Value) : OnlyForeign (h.printed v) := by
  rw [printed.eq_def]
  split
  · exact .ok _
  · exact h.onlyForeign_text v

/-! ### Describing -/

mutual

/-- Induction on the expression. -/
theorem onlyForeign_listed (h : Heap) : ∀ e : Expr Value, OnlyForeign (e.listed h)
  | .const _ value => by
    rw [Expr.listed]
    exact (h.onlyForeign_quoted value).bind fun _ => .ok _
  | .name _ _ => by
    rw [Expr.listed]
    exact .ok _
  | .member _ object _ => by
    rw [Expr.listed]
    exact (onlyForeign_listed h object).bind fun _ => .ok _
  | .not _ operand => by
    rw [Expr.listed]
    exact (onlyForeign_listed h operand).bind fun _ => .ok _
  | .filter _ value _ args => by
    rw [Expr.listed]
    refine (onlyForeign_listed h value).bind fun _ => ?_
    exact (onlyForeign_listedAll h args).bind fun _ => .ok _
  | .bare _ => by
    rw [Expr.listed]
    exact .ok _
  | .node n => by
    rw [Expr.listed]
    exact onlyForeign_node h n

theorem onlyForeign_listedAll (h : Heap) : ∀ es : List (Expr Value),
    OnlyForeign (Expr.listedAll h es)
  | [] => by
    rw [Expr.listedAll]
    exact .ok _
  | e :: rest => by
    rw [Expr.listedAll]
    refine (onlyForeign_listed h e).bind fun _ => ?_
    exact (onlyForeign_listedAll h rest).bind fun _ => .ok _

theorem onlyForeign_listedNamed (h : Heap) : ∀ es : List (String × Expr Value),
    OnlyForeign (Expr.listedNamed h es)
  | [] => by
    rw [Expr.listedNamed]
    exact .ok _
  | (_, e) :: rest => by
    rw [Expr.listedNamed]
    refine (onlyForeign_listed h e).bind fun _ => ?_
    exact (onlyForeign_listedNamed h rest).bind fun _ => .ok _

theorem onlyForeign_node (h : Heap) : ∀ n : Node Value, OnlyForeign (n.listed h)
  | .data _ _ => by
    rw [Node.listed]
    exact .ok _
  | .output _ value => by
    rw [Node.listed]
    exact (onlyForeign_listed h value).bind fun _ => .ok _
  | .choice _ test body others otherwise => by
    rw [Node.listed]
    refine (onlyForeign_listed h test).bind fun _ => ?_
    refine (onlyForeign_nodes h body).bind fun _ => ?_
    refine (onlyForeign_branches h others).bind fun _ => ?_
    exact (onlyForeign_nodes h otherwise).bind fun _ => .ok _
  | .loop _ _ items body empty => by
    rw [Node.listed]
    refine (onlyForeign_listed h items).bind fun _ => ?_
    refine (onlyForeign_nodes h body).bind fun _ => ?_
    exact (onlyForeign_nodes h empty).bind fun _ => .ok _
  | .scope _ bindings body => by
    rw [Node.listed]
    refine (onlyForeign_listedNamed h bindings).bind fun _ => ?_
    exact (onlyForeign_nodes h body).bind fun _ => .ok _
  | .assign _ _ value => by
    rw [Node.listed]
    exact (onlyForeign_listed h value).bind fun _ => .ok _
  | .call _ _ args named _ => by
    rw [Node.listed]
    refine (onlyForeign_listedAll h args).bind fun _ => ?_
    exact (onlyForeign_listedNamed h named).bind fun _ => .ok _
  | .bare _ _ => by
    rw [Node.listed]
    exact .ok _
  | .tree _ _ body => by
    rw [Node.listed]
    exact (onlyForeign_nodes h body).bind fun _ => .ok _
  | .expr _ e => by
    rw [Node.listed]
    exact onlyForeign_listed h e

theorem onlyForeign_nodes (h : Heap) : ∀ ns : List (Node Value), OnlyForeign (Node.listedAll h ns)
  | [] => by
    rw [Node.listedAll]
    exact .ok _
  | n :: rest => by
    rw [Node.listedAll]
    refine (onlyForeign_node h n).bind fun _ => ?_
    exact (onlyForeign_nodes h rest).bind fun _ => .ok _

theorem onlyForeign_branches (h : Heap) : ∀ bs : List (Branch Value),
    OnlyForeign (Branch.listedAll h bs)
  | [] => by
    rw [Branch.listedAll]
    exact .ok _
  | .mk test body :: rest => by
    rw [Branch.listedAll]
    refine (onlyForeign_listed h test).bind fun _ => ?_
    refine (onlyForeign_nodes h body).bind fun _ => ?_
    exact (onlyForeign_branches h rest).bind fun _ => .ok _

end

theorem onlyForeign_describe (h : Heap) : ∀ e : Expr Value, OnlyForeign (e.describe h)
  | .const _ value => h.onlyForeign_quoted value
  | .name _ _ => .ok _
  | .member _ object _ => (onlyForeign_describe h object).bind fun _ => .ok _
  | .not _ operand => (onlyForeign_describe h operand).bind fun _ => .ok _
  | .filter _ value _ _ => (onlyForeign_describe h value).bind fun _ => .ok _
  | .bare _ => .ok _
  | .node (.data _ _) => .ok _
  | .node (.assign _ _ value) => onlyForeign_listed h value
  | .node (.output p value) => onlyForeign_node h (.output p value)
  | .node (.choice p test body others otherwise) =>
    onlyForeign_node h (.choice p test body others otherwise)
  | .node (.loop p target items body empty) => onlyForeign_node h (.loop p target items body empty)
  | .node (.scope p bindings body) => onlyForeign_node h (.scope p bindings body)
  | .node (.call p tag args named target) => onlyForeign_node h (.call p tag args named target)
  | .node (.bare title p) => onlyForeign_node h (.bare title p)
  | .node (.tree title p body) => onlyForeign_node h (.tree title p body)
  | .node (.expr title e) => onlyForeign_node h (.expr title e)

/-! ### Reading -/

/-- A thing has no attribute of a name, and raises a fault when it is asked for it. -/
def RaisedBy (h : Heap) (v : Value) (name : String) (f : Fault) : Prop :=
  ∃ i t, v = .object i ∧ h.get? i = some (.thing t) ∧ t.attributes.lookup name = none ∧
    t.raising.lookup name = some f

theorem attribute?_eq_error {h : Heap} {v : Value} {name : String} {f : Fault}
    (e : h.attribute? v name = .error f) : h.RaisedBy v name f := by
  cases v with
  | atom _ => cases e
  | method _ _ => cases e
  | object i =>
    rw [attribute?.eq_def] at e
    dsimp only at e
    split at e
    case h_5 t ht =>
      split at e
      · cases e
      · cases e
      · cases e
      · next hattr hraise =>
        obtain rfl := Except.error.inj e
        exact ⟨i, t, rfl, ht, hattr, hraise⟩
    all_goals cases e

theorem onlyForeign_segmentKey (segment : String) : OnlyForeign (segmentKey segment) := by
  rw [segmentKey]
  split
  · split
    · exact .ok _
    · exact .foreign _ _
  · exact .ok _

/-- A segment of a path raises what a thing says, or a foreign fault. -/
theorem member?_eq_error {h : Heap} {v : Value} {segment : String} {f : Fault}
    (e : h.member? v segment = .error f) : h.RaisedBy v segment f ∨ f.IsForeign := by
  rw [member?] at e
  rcases ha : h.attribute? v segment with f' | found
  · rw [ha] at e
    obtain rfl : f' = f := Except.error.inj e
    exact .inl (attribute?_eq_error ha)
  · rw [ha] at e
    cases found with
    | some w => cases e
    | none =>
      refine .inr (OnlyForeign.bind (onlyForeign_segmentKey segment) (fun key => ?_) f e)
      exact .ok (h.item? v key)

/-! ### Going through items -/

variable {s : Heap} {E : Failure}

theorem not_fails_visit (xs : List Value) : ¬ (visit pure xs).Fails s E := by
  induction xs generalizing s with
  | nil => exact Run.not_fails_pure _
  | cons v rest ih =>
    rw [visit, Run.fails_bind]
    rintro (h | ⟨_, s', -, h⟩)
    · exact Run.not_fails_pure _ h
    · rcases Run.fails_bind.mp h with h | ⟨_, _, -, h⟩
      · exact ih h
      · exact Run.not_fails_pure _ h

theorem not_fails_visitGenerator (i : Nat) (xs : List Value) :
    ¬ (visitGenerator i pure xs).Fails s E := by
  induction xs generalizing s with
  | nil => exact Run.not_fails_pure _
  | cons v rest ih =>
    rw [visitGenerator, Run.Fails, Run.exec_modify_bind, Run.exec_pure_bind, ← Run.Fails,
      Run.fails_bind]
    rintro (h | ⟨_, _, -, h⟩)
    · exact ih h
    · exact Run.not_fails_pure _ h

theorem not_fails_visitLoop (i items position : Nat) (xs : List Value) :
    ¬ (visitLoop i items pure position xs).Fails s E := by
  induction xs generalizing s position with
  | nil => exact Run.not_fails_pure _
  | cons v rest ih =>
    rw [visitLoop, Run.Fails, Run.exec_modify_bind, Run.exec_pure_bind, ← Run.Fails,
      Run.fails_bind]
    rintro (h | ⟨_, _, -, h⟩)
    · exact ih _ h
    · exact Run.not_fails_pure _ h

/-- Only what has no items refuses to be gone through. -/
theorem itemsOf_fails {v : Value} (h : (itemsOf v).Fails s E) : ∃ f, E = .of f ∧ f.IsForeign := by
  have refused : ∀ kind text, (Run.fail (.foreign kind text) : Run Heap (List Value)).Fails s E →
      ∃ f, E = .of f ∧ f.IsForeign := fun kind text h =>
    ⟨_, Run.fails_fail.mp h, kind, text, rfl⟩
  rw [itemsOf, forEach, Run.fails_get_bind] at h
  split at h
  · exact absurd h (not_fails_visit _)
  · split at h
    · exact absurd h (not_fails_visit _)
    · exact absurd h (not_fails_visit _)
    · exact absurd h (not_fails_visit _)
    · exact absurd h (not_fails_visitGenerator _ _)
    · exact absurd h (not_fails_visitLoop _ _ _ _)
    · exact refused _ _ h
    · exact refused _ _ h
  · exact refused _ _ h

end Heap

end Stencil
