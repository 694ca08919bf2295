/-
Stencil/Proofs/Scope/Calls.lean

The calls of a clone function by a copy of a context.  There is one for each binding, base frame
first and each frame in its order, and each call finds the memo as the call before left it
(`CloneCalls`).  The copy binds what the calls returned, and where a call raised, the value itself;
so whichever calls raise, a copy comes about and has the shape of the context
(`Clone.Settles.exec_copyWith`).

A name is written into the record of what is shared, so where a name cannot be written, a call that
raises ends the copy.  Texts can be written.
-/
import Stencil.Proofs.Render.Reclaim
import Stencil.Proofs.Value.Settle

namespace Stencil

/-! ### Calls -/

/-- A call of a clone function for a binding: the state that it found, and how it ended. -/
structure CloneCall where
  name : Name
  value : Value
  before : Copying
  outcome : Except Failure Value

namespace CloneCall

/-- The binding that a call is for. -/
def binding (k : CloneCall) : Name × Value := (k.name, k.value)

/-- The binding that comes of a call: to what it returned, or to the value itself if it raised. -/
def bound (k : CloneCall) : Name × Value :=
  (k.name, match k.outcome with
    | .ok copy => copy
    | .error _ => k.value)

end CloneCall

/-- Calls of a clone function, one after the other.  Each finds the state as the one before left
it, but that it is recorded what is shared where that one raised. -/
inductive CloneCalls (clone : Clone) : Copying → List CloneCall → Copying → Prop
  | done (s : Copying) : CloneCalls clone s [] s
  | returns {n : Name} {v copy : Value} {s s₁ s' : Copying} {rest : List CloneCall}
      (call : (clone v).exec s = (.ok copy, s₁)) (others : CloneCalls clone s₁ rest s') :
      CloneCalls clone s (⟨n, v, s, .ok copy⟩ :: rest) s'
  | raises {n : Name} {v : Value} {e : Failure} {t : String} {s s₁ s' : Copying}
      {rest : List CloneCall} (call : (clone v).exec s = (.error (.failed e), s₁))
      (written : s₁.heap.text n.value = .ok t)
      (others : CloneCalls clone
        { s₁ with records := s₁.records ++ [.sharing t (s₁.heap.typeName v) e.fault.message] }
        rest s') :
      CloneCalls clone s (⟨n, v, s, .error e⟩ :: rest) s'

theorem CloneCalls.append {clone : Clone} {s s₁ s' : Copying} {calls rest : List CloneCall}
    (c : CloneCalls clone s calls s₁) (c' : CloneCalls clone s₁ rest s') :
    CloneCalls clone s (calls ++ rest) s' := by
  induction c with
  | done => exact c'
  | returns call _ ih => exact .returns call (ih c')
  | raises call written _ ih => exact .raises call written (ih c')

/-! ### Names and bindings -/

/-- The name can be written, whatever there is. -/
def Name.Writable (n : Name) : Prop := ∀ h : Heap, ∃ t, h.text n.value = .ok t

namespace Context

variable {α : Type} {x : Context Value}

/-- All bindings, the base frame first. -/
def bindings (x : Context α) : List (Name × α) := x.frames.flatMap (·.entries)

/-- All names can be written. -/
def Writable (x : Context Value) : Prop := ∀ b ∈ x.bindings, b.1.Writable

end Context

/-! ### Copies by calls -/

section Calls

variable {clone : Clone} {s : Copying}

namespace Clone.Settles

variable (settles : clone.Settles)
include settles

/-- A bound value is cloned by one call, or shared. -/
theorem exec_cloneOrShare {n : Name} (hn : n.Writable) (v : Value) (s : Copying) :
    ∃ k s', CloneCalls clone s [k] s' ∧ k.binding = (n, v) ∧
      (cloneOrShare clone recordSharing n v).exec s = (.ok k.bound.2, s') := by
  have hv := settles v s
  rcases e : (clone v).exec s with ⟨(f | -) | copy, s₁⟩
  · -- what the call raised is caught, and the record of it can be written
    rw [e] at hv
    have hcatch : f.fault.catchable = true := by
      rw [cutShort, Stop.final, Bool.not_eq_false'] at hv
      exact hv
    obtain ⟨t, ht⟩ := hn s₁.heap
    refine ⟨⟨n, v, s, .error f⟩, _, .raises e ht (.done _), rfl, ?_⟩
    rw [cloneOrShare, Run.exec_catching, e]
    dsimp only
    rw [if_pos hcatch, recordSharing]
    simp only [Run.exec_bind, Run.exec_get, ht]
    rfl
  · rw [e] at hv
    cases hv
  · exact ⟨⟨n, v, s, .ok copy⟩, s₁, .returns e (.done s₁), rfl, Run.exec_catching_ok e⟩

/-- Induction on the entries. -/
theorem exec_cloneEntries {es : List (Name × Value)} (hes : ∀ b ∈ es, b.1.Writable)
    (s : Copying) :
    ∃ calls s', CloneCalls clone s calls s' ∧ calls.map (·.binding) = es ∧
      (cloneEntries clone recordSharing es).exec s = (.ok (calls.map (·.bound)), s') := by
  induction es generalizing s with
  | nil => exact ⟨[], s, .done s, rfl, rfl⟩
  | cons b rest ih =>
    rw [List.forall_mem_cons] at hes
    obtain ⟨k, s₁, hcall, hbinding, hexec⟩ := settles.exec_cloneOrShare hes.1 b.2 s
    obtain ⟨calls, s', hcalls, hbindings, hrest⟩ := ih hes.2 s₁
    refine ⟨k :: calls, s', hcall.append hcalls, ?_, ?_⟩
    · rw [List.map_cons, hbinding, hbindings]
    · have hname : k.bound.1 = b.1 := (Prod.mk.inj hbinding).1
      rw [cloneEntries, Run.exec_bind_ok hexec, Run.exec_bind_ok hrest, Run.exec_pure, ← hname]
      rfl

/-- Induction on the frames. -/
theorem exec_cloneFrames {fs : List (Frame Value)}
    (hfs : ∀ b ∈ fs.flatMap (·.entries), b.1.Writable) (s : Copying) :
    ∃ calls copies s', CloneCalls clone s calls s' ∧
      calls.map (·.binding) = fs.flatMap (·.entries) ∧
      copies.flatMap (·.entries) = calls.map (·.bound) ∧
      (cloneFrames clone recordSharing fs).exec s = (.ok copies, s') := by
  induction fs generalizing s with
  | nil => exact ⟨[], [], s, .done s, rfl, rfl, rfl⟩
  | cons f rest ih =>
    rw [List.flatMap_cons, List.forall_mem_append] at hfs
    obtain ⟨calls, s₁, hcalls, hbindings, hexec⟩ := settles.exec_cloneEntries hfs.1 s
    obtain ⟨calls', copies, s', hcalls', hbindings', hbound, hrest⟩ := ih hfs.2 s₁
    refine ⟨calls ++ calls', ⟨calls.map (·.bound)⟩ :: copies, s', hcalls.append hcalls', ?_, ?_, ?_⟩
    · rw [List.map_append, hbindings, hbindings', List.flatMap_cons]
    · rw [List.flatMap_cons, hbound, List.map_append]
    · rw [cloneFrames, Run.exec_bind_ok hexec, Run.exec_bind_ok hrest, Run.exec_pure]

end Clone.Settles

end Calls

end Stencil
