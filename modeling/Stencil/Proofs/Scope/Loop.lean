/-
Stencil/Proofs/Scope/Loop.lean

Loops in contexts.  `Context.loopAt` is what `loop` is bound to in the frame of
a number; pushing and popping other frames, and binding other names, leaves it.

In a copy of a context a loop is bound as before, unless a copy that failed has
left its state or its list unfinished (`runsAt_of_copyWith`).  While values are
copied, the memo may come to hold copies of both, in any order and at any depth.
At any time, however a copy of a value ends, the copy of the list has no more
items than the list, and that of the state, if it is not empty yet, is at the
same position and has the copy of the list (`LoopMinded`).  This is an induction
on the depth (`copiesLoop_deepCopyIn`), and so it is for every cloning rule.
-/
import Stencil.Proofs.Scope.Evolve
import Stencil.Proofs.Scope.Faithful
import Stencil.Proofs.Value.Loop

namespace Stencil

/-! ### Where a loop is bound -/

namespace Context

variable {x y : Context Value} {depth : Nat}

/-- What `loop` is bound to in the frame of a number, counted from the base. -/
def loopAt (x : Context Value) (depth : Nat) : Option Value :=
  (x.frames[depth]?).bind fun f => f.get? (.text "loop")

theorem frames_eq (x : Context Value) : x.frames = x.outer.reverse ++ [x.innermost] := by
  rw [frames, inward, List.reverse_cons]

theorem loopAt_of_lt (hd : depth < x.outer.length) :
    x.loopAt depth = (x.outer.reverse[depth]?).bind fun f => f.get? (.text "loop") := by
  rw [loopAt, frames_eq, List.getElem?_append_left (by rwa [List.length_reverse])]

theorem loopAt_innermost (x : Context Value) :
    x.loopAt x.outer.length = x.innermost.get? (.text "loop") := by
  rw [loopAt, frames_eq, ← List.length_reverse, List.getElem?_concat_length, Option.bind_some]

theorem loopAt_of_gt (hd : x.outer.length < depth) : x.loopAt depth = none := by
  have hlength : x.frames.length ≤ depth := by
    rw [frames_eq, List.length_append, List.length_reverse]
    exact hd
  rw [loopAt, List.getElem?_eq_none hlength, Option.bind_none]

/-- A frame on top hides nothing from those who count from the base. -/
theorem loopAt_push (f : Frame Value) (hd : depth ≤ x.outer.length) :
    (x.push f).loopAt depth = x.loopAt depth := by
  have hlength : (x.push f).outer.length = x.outer.length + 1 := rfl
  rw [loopAt_of_lt (hlength ▸ Nat.lt_succ_of_le hd)]
  rfl

theorem eq_push_of_pop {f : Frame Value} (e : x.pop? = some (f, y)) : x = y.push f := by
  obtain ⟨g, outer⟩ := x
  cases outer with
  | nil => cases e
  | cons g' rest =>
    cases e
    rfl

/-- A name is bound that is not `loop`, or in another frame. -/
theorem loopAt_set {name : String} (v : Value) (hd : depth ≤ x.outer.length)
    (hname : name = "loop" → depth < x.outer.length) :
    (x.set name v).loopAt depth = x.loopAt depth := by
  by_cases hlt : depth < x.outer.length
  · rw [loopAt_of_lt hlt]
    exact loopAt_of_lt hlt
  · obtain rfl : depth = x.outer.length := Nat.le_antisymm hd (Nat.not_lt.mp hlt)
    have hne : Name.text "loop" ≠ .text name := fun e => hlt (hname (Name.text.inj e).symm)
    rw [loopAt_innermost]
    refine (loopAt_innermost (x.set name v)).trans ?_
    rw [set, Bindings.get?_set, if_neg hne]

theorem loopAt_writeAll (hd : depth ≤ x.outer.length) (ws : List Write)
    (hname : "loop" ∈ ws.map (·.1) → depth < x.outer.length) :
    (x.writeAll ws).loopAt depth = x.loopAt depth := by
  induction ws generalizing x with
  | nil => rfl
  | cons w ws ih =>
    have hset := loopAt_set w.2 hd fun e => hname (List.mem_cons.mpr (.inl e.symm))
    exact (ih (x := x.set w.1 w.2) hd fun h => hname (List.mem_cons_of_mem _ h)).trans hset

theorem Matches.loopAt {R : Value → Value → Prop} {v : Value} (m : x.Matches R y)
    (e : x.loopAt depth = some v) : ∃ u, y.loopAt depth = some u ∧ R v u := by
  obtain ⟨f, ef, ev⟩ := Option.bind_eq_some_iff.mp e
  obtain ⟨f', ef', hall⟩ := m.frame ef
  have hrel := hall (.text "loop")
  rw [ev] at hrel
  rcases eu : f'.get? (.text "loop") with - | u <;> rw [eu] at hrel <;> cases hrel
  · next hu => exact ⟨u, Option.bind_eq_some_iff.mpr ⟨f', ef', eu⟩, hu⟩

/-- Induction on the frames from the inside. -/
theorem findIn_loop {fs : List (Frame Value)} {v : Value}
    (e : (fs.reverse[depth]?).bind (fun f => f.get? (.text "loop")) = some v)
    (hinner : ∀ d, depth < d → (fs.reverse[d]?).bind (fun f => f.get? (.text "loop")) = none) :
    findIn (.text "loop") fs = some v := by
  induction fs with
  | nil => cases e
  | cons f rest ih =>
    have hlast : (f :: rest).reverse[rest.length]? = some f := by
      rw [List.reverse_cons, ← List.length_reverse, List.getElem?_concat_length]
    have hbelow : ∀ d, d < rest.length → (f :: rest).reverse[d]? = rest.reverse[d]? := by
      intro d hd
      rw [List.reverse_cons, List.getElem?_append_left (by rwa [List.length_reverse])]
    rw [findIn]
    rcases Nat.lt_trichotomy depth rest.length with hlt | rfl | hgt
    · have hf := hinner _ hlt
      rw [hlast, Option.bind_some] at hf
      rw [hf, Option.none_or]
      refine ih (hbelow depth hlt ▸ e) fun d hd => ?_
      by_cases hlt' : d < rest.length
      · rw [← hbelow d hlt']
        exact hinner d hd
      · rw [List.getElem?_eq_none (by rw [List.length_reverse]; exact Nat.not_lt.mp hlt'),
          Option.bind_none]
    · rw [hlast, Option.bind_some] at e
      rw [e, Option.some_or]
    · rw [List.getElem?_eq_none (by rw [List.length_reverse]; exact hgt), Option.bind_none] at e
      cases e

/-- The innermost frame that binds `loop` is the one that counts. -/
theorem lookup?_loop {v : Value} (e : x.loopAt depth = some v)
    (hinner : ∀ d, depth < d → x.loopAt d = none) : x.lookup? "loop" = some v :=
  findIn_loop e hinner

end Context

namespace Copying

/-! ### What copies add -/

/-- The first `n` objects stay as they are, and what the memo holds; what it gets are new objects. -/
structure Adds (n : Nat) (s s' : Copying) : Prop where
  beyond : Beyond n s s'
  memo : ∀ a v, s.memo.lookup a = some v → s'.memo.lookup a = some v
  fresh : ∀ a v, s'.memo.lookup a = some v →
    s.memo.lookup a = some v ∨ ∃ j, v = .object j ∧ n ≤ j

variable {n m : Nat} {s s' : Copying}

instance (n : Nat) : IsPreorder Copying (Adds n) where
  refl s := ⟨refl_of (Beyond n) s, fun _ _ e => e, fun _ _ e => .inl e⟩
  trans _ _ _ a a' := by
    refine ⟨trans_of (Beyond n) a.beyond a'.beyond, fun i v e => a'.memo i v (a.memo i v e), ?_⟩
    intro i v e
    rcases a'.fresh i v e with e | hnew
    · exact a.fresh i v e
    · exact .inr hnew

theorem Adds.mono (a : Adds m s s') (h : n ≤ m) : Adds n s s' where
  beyond := ⟨a.beyond.1, fun i hi => a.beyond.2 i (Nat.lt_of_lt_of_le hi h)⟩
  memo := a.memo
  fresh i v e := (a.fresh i v e).imp_right fun ⟨j, hv, hj⟩ => ⟨j, hv, Nat.le_trans h hj⟩

theorem Adds.size_le (a : Adds n s s') : s.heap.objects.size ≤ s'.heap.objects.size := a.beyond.1

theorem Adds.put {j : Nat} (hj : n ≤ j) (o : Object) :
    Adds n s { s with heap := s.heap.put j o } := ⟨.put hj o, fun _ _ e => e, fun _ _ e => .inl e⟩

/-- A copy is begun of what the memo does not hold. -/
theorem Adds.begunAt {a : Nat} (hnew : s.memo.lookup a = none) (o : Object)
    (hn : n ≤ s.heap.objects.size) : Adds n s (s.begunAt a o) where
  beyond := by
    have h := (leads_begin hn a o).state
    rwa [exec_begin] at h
  memo b v e := by
    rw [lookup_begunAt]
    split
    · next hb =>
      subst hb
      cases hnew.symm.trans e
    · exact e
  fresh b v e := by
    rw [lookup_begunAt] at e
    split at e
    · exact .inr ⟨_, (Option.some.inj e).symm, hn⟩
    · exact .inl e

/-! ### Copies of a loop -/

section Loop

variable {h : Heap} {i l p c : Nat}

/-- The memo holds a copy of the loop `i`, if any, that is empty or whole, and a copy of its list,
if any, that has no more items. -/
structure LoopMinded (h : Heap) (i l p c : Nat) (s : Copying) : Prop where
  size_le : h.objects.size ≤ s.heap.objects.size
  same : ∀ a, a < h.objects.size → s.heap.get? a = h.get? a
  list : ∀ v, s.memo.lookup l = some v → ∃ b ys, v = .object b ∧ h.objects.size ≤ b ∧
    s.heap.get? b = some (.list ys) ∧ ys.length ≤ c
  loop : ∀ v, s.memo.lookup i = some v → ∃ j o, v = .object j ∧ h.objects.size ≤ j ∧
    s.heap.get? j = some (.loop o) ∧
      ∀ q, o = some q → q.position = p ∧ s.memo.lookup l = some (.object q.items)

/-- What copies add, with the loop in mind. -/
structure MindsLoop (h : Heap) (i l p c n : Nat) (s s' : Copying) : Prop where
  adds : Adds n s s'
  minded : LoopMinded h i l p c s → LoopMinded h i l p c s'

instance (n : Nat) : IsPreorder Copying (MindsLoop h i l p c n) where
  refl s := ⟨refl_of (Adds n) s, id⟩
  trans _ _ _ m m' := ⟨trans_of (Adds n) m.adds m'.adds, m'.minded ∘ m.minded⟩

theorem MindsLoop.mono (d : MindsLoop h i l p c m s s') (hn : n ≤ m) :
    MindsLoop h i l p c n s s' := ⟨d.adds.mono hn, d.minded⟩

namespace LoopMinded

/-- At the beginning the memo is empty. -/
theorem start (h : Heap) (i l p c : Nat) : LoopMinded h i l p c ⟨h, [], [], []⟩ :=
  ⟨Nat.le_refl _, fun _ _ => rfl, nofun, nofun⟩

variable (k : LoopMinded h i l p c s)
include k

/-- A new object is replaced: the copy of the list by a list, that of the state by a state. -/
theorem put {j : Nat} {o : Object} (hj : h.objects.size ≤ j)
    (hlist : s.memo.lookup l = some (.object j) → ∃ ys, o = .list ys ∧ ys.length ≤ c)
    (hloop : s.memo.lookup i = some (.object j) → ∃ o', o = .loop o' ∧
      ∀ q, o' = some q → q.position = p ∧ s.memo.lookup l = some (.object q.items)) :
    LoopMinded h i l p c { s with heap := s.heap.put j o } := by
  have hsize : (s.heap.put j o).objects.size = s.heap.objects.size := Heap.size_put ..
  have hother : ∀ b, j ≠ b → (s.heap.put j o).get? b = s.heap.get? b := fun b hb => by
    rw [Heap.get?_put, if_neg hb]
  have hown : ∀ o', s.heap.get? j = some o' → (s.heap.put j o).get? j = some o := fun o' e => by
    rw [Heap.get?_put, if_pos rfl, e]
    rfl
  refine ⟨Nat.le_trans k.size_le (Nat.le_of_eq hsize.symm), fun b hb => ?_, fun v e => ?_,
    fun v e => ?_⟩
  · rw [← k.same b hb]
    exact hother b (Nat.ne_of_gt (Nat.lt_of_lt_of_le hb hj))
  · obtain ⟨b, ys, rfl, hle, eb, hys⟩ := k.list v e
    by_cases hb : j = b
    · subst hb
      obtain ⟨zs, rfl, hzs⟩ := hlist e
      exact ⟨j, zs, rfl, hle, hown _ eb, hzs⟩
    · exact ⟨b, ys, rfl, hle, (hother b hb).trans eb, hys⟩
  · obtain ⟨b, o', rfl, hle, eb, ho'⟩ := k.loop v e
    by_cases hb : j = b
    · subst hb
      obtain ⟨q, rfl, hq⟩ := hloop e
      exact ⟨j, q, rfl, hle, hown _ eb, hq⟩
    · exact ⟨b, o', rfl, hle, (hother b hb).trans eb, ho'⟩

/-- A copy is begun: that of the list without items, that of the state empty. -/
theorem begunAt {a : Nat} {o : Object} (hnew : s.memo.lookup a = none) (hlist : a = l → o = .list [])
    (hloop : a = i → o = .loop none) : LoopMinded h i l p c (s.begunAt a o) := by
  have hold : ∀ b p, s.heap.get? b = some p → (s.begunAt a o).heap.get? b = some p :=
    fun b p e => by rw [get?_begunAt, if_neg (Nat.ne_of_lt (Heap.lt_size e)), e]
  have hlast : (s.begunAt a o).heap.get? s.heap.objects.size = some o := by
    rw [get?_begunAt, if_pos rfl]
  have hadds := Adds.begunAt hnew o (Nat.le_refl s.heap.objects.size)
  refine ⟨Nat.le_trans k.size_le hadds.size_le, fun b hb => ?_, fun v e => ?_, fun v e => ?_⟩
  · rw [hadds.beyond.2 b (Nat.lt_of_lt_of_le hb k.size_le), k.same b hb]
  · rw [lookup_begunAt] at e
    split at e
    · next ha =>
      obtain rfl := Option.some.inj e
      obtain rfl := hlist ha.symm
      exact ⟨_, [], rfl, k.size_le, hlast, Nat.zero_le _⟩
    · obtain ⟨b, ys, rfl, hle, eb, hys⟩ := k.list v e
      exact ⟨b, ys, rfl, hle, hold b _ eb, hys⟩
  · rw [lookup_begunAt] at e
    split at e
    · next ha =>
      obtain rfl := Option.some.inj e
      obtain rfl := hloop ha.symm
      exact ⟨_, none, rfl, k.size_le, hlast, fun q hq => by cases hq⟩
    · obtain ⟨b, o', rfl, hle, eb, ho'⟩ := k.loop v e
      exact ⟨b, o', rfl, hle, hold b _ eb, fun q hq => ⟨(ho' q hq).1, hadds.memo _ _ (ho' q hq).2⟩⟩

end LoopMinded

/-! ### Filling a copy -/

/-- What is asked of the function that copies parts: it has the loop in mind, and remembers the
copies of its state and of its list. -/
def CopiesLoop (h : Heap) (i l p c : Nat) (copy : Value → Run Copying Value) : Prop :=
  ∀ (v : Value) (s : Copying), LoopMinded h i l p c s →
    (copy v).Leads (MindsLoop h i l p c s.heap.objects.size) s fun s' w =>
      LoopMinded h i l p c s' ∧ ∀ a, v = .object a → a = i ∨ a = l → s'.memo.lookup a = some w

/-- The object `j` is new, and a copy of neither the state nor the list. -/
structure Apart (h : Heap) (i l n j : Nat) (s : Copying) : Prop where
  le : n ≤ j
  old : h.objects.size ≤ j
  lt : j < s.heap.objects.size
  list : s.memo.lookup l ≠ some (.object j)
  loop : s.memo.lookup i ≠ some (.object j)

/-- What an inner copy adds is apart, too. -/
theorem Apart.adds {j : Nat} (a : Apart h i l n j s) (d : Adds s.heap.objects.size s s') :
    Apart h i l n j s' := by
  have hnew : ∀ b, s'.memo.lookup b = some (.object j) → s.memo.lookup b = some (.object j) := by
    intro b e
    rcases d.fresh b _ e with e | ⟨k, hk, hle⟩
    · exact e
    · obtain rfl := Value.object.inj hk
      exact absurd a.lt (Nat.not_lt.mpr hle)
  exact ⟨a.le, a.old, Nat.lt_of_lt_of_le a.lt d.size_le, mt (hnew l) a.list, mt (hnew i) a.loop⟩

variable {copy : Value → Run Copying Value} {j : Nat}

theorem CopiesLoop.along (copies : CopiesLoop h i l p c copy) (n j : Nat) :
    Along (MindsLoop h i l p c n) (fun s => LoopMinded h i l p c s ∧ Apart h i l n j s) copy := by
  rintro v s ⟨k, a⟩
  have hcopy := copies v s k
  refine ⟨hcopy.state.mono (Nat.le_trans a.le (Nat.le_of_lt a.lt)), fun w s' e => ?_⟩
  have hstate := hcopy.state
  rw [e] at hstate
  exact ⟨(hcopy.result w s' e).1, a.adds hstate.adds⟩

/-- Nothing is being filled. -/
theorem CopiesLoop.alongThere (copies : CopiesLoop h i l p c copy) (n : Nat) :
    Along (MindsLoop h i l p c n) (fun s => LoopMinded h i l p c s ∧ n ≤ s.heap.objects.size)
      copy := by
  rintro v s ⟨k, hn⟩
  have hcopy := copies v s k
  refine ⟨hcopy.state.mono hn, fun w s' e => ?_⟩
  have hstate := hcopy.state
  rw [e] at hstate
  exact ⟨(hcopy.result w s' e).1, Nat.le_trans hn hstate.adds.size_le⟩

theorem replaces_apart (n j : Nat) : Replaces (MindsLoop h i l p c n)
    (fun s => LoopMinded h i l p c s ∧ Apart h i l n j s) j := by
  rintro s o ⟨k, a⟩
  have hput : LoopMinded h i l p c s → LoopMinded h i l p c { s with heap := s.heap.put j o } :=
    fun k => k.put a.old (fun e => absurd e a.list) fun e => absurd e a.loop
  have hsize : (s.heap.put j o).objects.size = s.heap.objects.size := Heap.size_put ..
  exact ⟨⟨.put a.le o, hput⟩, hput k, a.le, a.old, Nat.lt_of_lt_of_eq a.lt hsize.symm, a.list,
    a.loop⟩

/-- The copy of the list is filled: induction on the items that are left. -/
theorem leads_fillList_loop (copies : CopiesLoop h i l p c copy) {xs ys : List Value}
    (k : LoopMinded h i l p c s) (hmemo : s.memo.lookup l = some (.object j)) (hn : n ≤ j)
    (hlist : s.heap.get? j = some (.list ys)) (hlen : ys.length + xs.length ≤ c) :
    (fillList copy j xs).Leads (MindsLoop h i l p c n) s fun s' _ =>
      LoopMinded h i l p c s' ∧ s'.memo.lookup l = some (.object j) := by
  induction xs generalizing s ys with
  | nil => exact .pure ⟨k, hmemo⟩
  | cons v rest ih =>
    have hlt : j < s.heap.objects.size := Heap.lt_size hlist
    have hcopy := copies v s k
    have hcopy' : (copy v).Leads (MindsLoop h i l p c n) s fun s' _ =>
        LoopMinded h i l p c s' ∧ s'.memo.lookup l = some (.object j) ∧
          s'.heap.get? j = some (.list ys) := by
      refine ⟨hcopy.state.mono (Nat.le_trans hn (Nat.le_of_lt hlt)), fun w s' e => ?_⟩
      have hstate := hcopy.state
      rw [e] at hstate
      exact ⟨(hcopy.result w s' e).1, hstate.adds.memo l _ hmemo,
        (hstate.adds.beyond.2 j hlt).trans hlist⟩
    rw [fillList]
    refine .bind hcopy' fun w s₁ _ h₁ => ?_
    obtain ⟨k₁, hmemo₁, hlist₁⟩ := h₁
    have hitems : s₁.heap.listItems j = ys := by rw [Heap.listItems, hlist₁]
    rw [List.length_cons] at hlen
    have hlen' : (ys ++ [w]).length + rest.length ≤ c := by
      rw [List.length_append, List.length_singleton]
      omega
    have hput : LoopMinded h i l p c s₁ →
        LoopMinded h i l p c { s₁ with heap := s₁.heap.put j (.list (ys ++ [w])) } := by
      intro k₁
      obtain ⟨b, zs, hb, hold, -⟩ := k₁.list _ hmemo₁
      obtain rfl := Value.object.inj hb
      refine k₁.put hold (fun _ => ⟨_, rfl, Nat.le_trans (Nat.le_add_right _ _) hlen'⟩) fun e => ?_
      obtain ⟨b, o, hb, -, eb, -⟩ := k₁.loop _ e
      obtain rfl := Value.object.inj hb
      cases eb.symm.trans hlist₁
    have hget : (s₁.heap.put j (.list (ys ++ [w]))).get? j = some (.list (ys ++ [w])) := by
      rw [Heap.get?_put, if_pos rfl, hlist₁]
      rfl
    refine .modify_bind ?_ ?_ <;> rw [hitems]
    · exact ⟨.put hn _, hput⟩
    · exact ih (hput k₁) hmemo₁ hget hlen'

/-- The copy of the state is filled, from the copy of the list. -/
theorem leads_fillLoop_loop (copies : CopiesLoop h i l p c copy) (k : LoopMinded h i l p c s)
    (hmemo : s.memo.lookup i = some (.object j)) (hn : n ≤ j) (hj : j < s.heap.objects.size)
    (hlist : s.memo.lookup l ≠ some (.object j)) :
    (fillLoop copy ⟨l, p⟩ j).Leads (MindsLoop h i l p c n) s fun s' _ =>
      LoopMinded h i l p c s' ∧ s'.memo.lookup i = some (.object j) := by
  have hcopy := copies (.object l) s k
  have hcopy' : (copy (.object l)).Leads (MindsLoop h i l p c n) s fun s' w =>
      LoopMinded h i l p c s' ∧ s'.memo.lookup i = some (.object j) ∧
        s'.memo.lookup l = some w ∧ w ≠ .object j := by
    refine ⟨hcopy.state.mono (Nat.le_trans hn (Nat.le_of_lt hj)), fun w s' e => ?_⟩
    have hstate := hcopy.state
    rw [e] at hstate
    obtain ⟨k', hw⟩ := hcopy.result w s' e
    have hw := hw l rfl (.inr rfl)
    refine ⟨k', hstate.adds.memo i _ hmemo, hw, ?_⟩
    rintro rfl
    rcases hstate.adds.fresh l _ hw with e | ⟨b, hb, hle⟩
    · exact hlist e
    · obtain rfl := Value.object.inj hb
      exact Nat.not_lt.mpr hle hj
  rw [fillLoop]
  refine .bind hcopy' fun w s₁ _ h₁ => ?_
  obtain ⟨k₁, hmemo₁, hw, hne⟩ := h₁
  obtain ⟨b, ys, rfl, -⟩ := k₁.list w hw
  have hput : LoopMinded h i l p c s₁ →
      LoopMinded h i l p c { s₁ with heap := s₁.heap.put j (.loop (some ⟨b, p⟩)) } := by
    intro k₁
    obtain ⟨b', o, hb', hold, -⟩ := k₁.loop _ hmemo₁
    obtain rfl := Value.object.inj hb'
    refine k₁.put hold (fun e => absurd (Option.some.inj (hw.symm.trans e)) hne) fun _ => ?_
    refine ⟨_, rfl, fun q hq => ?_⟩
    obtain rfl := Option.some.inj hq
    exact ⟨rfl, hw⟩
  exact .of_ok rfl ⟨.put hn _, hput⟩ ⟨hput k₁, hmemo₁⟩

/-! ### Deep copies -/

/-- A copy is begun of what is neither the state nor the list. -/
theorem leads_begin_apart {a : Nat} (k : LoopMinded h i l p c s) (hn : n ≤ s.heap.objects.size)
    (hnew : s.memo.lookup a = none) (ha : ¬ (a = i ∨ a = l)) (o : Object) :
    (begin a o).Leads (MindsLoop h i l p c n) s fun s' j =>
      LoopMinded h i l p c s' ∧ Apart h i l n j s' := by
  have k₁ := k.begunAt (o := o) hnew (fun e => absurd (.inr e) ha) fun e => absurd (.inl e) ha
  have hlast : s.heap.objects.size < (s.begunAt a o).heap.objects.size :=
    Nat.lt_of_lt_of_eq (Nat.lt_succ_self _) (Heap.size_add ..).symm
  have hother : ∀ b v, b ≠ a → (s.begunAt a o).memo.lookup b = some v → s.memo.lookup b = some v :=
    fun b v hb e => by rwa [lookup_begunAt, if_neg hb] at e
  refine .of_ok (exec_begin a o s) ⟨.begunAt hnew o hn, fun _ => k₁⟩
    ⟨k₁, hn, k.size_le, hlast, fun e => ?_, fun e => ?_⟩
  · obtain ⟨b, ys, hb, -, eb, -⟩ := k.list _ (hother l _ (fun hl => ha (.inr hl.symm)) e)
    obtain rfl := Value.object.inj hb
    exact Nat.lt_irrefl _ (Heap.lt_size eb)
  · obtain ⟨b, o', hb, -, eb, -⟩ := k.loop _ (hother i _ (fun hi => ha (.inl hi.symm)) e)
    obtain rfl := Value.object.inj hb
    exact Nat.lt_irrefl _ (Heap.lt_size eb)

/-- It is begun and filled. -/
theorem leads_begun_apart {a : Nat} (k : LoopMinded h i l p c s) (hn : n ≤ s.heap.objects.size)
    (hnew : s.memo.lookup a = none) (ha : ¬ (a = i ∨ a = l)) (o : Object)
    {fill : Nat → Run Copying Unit}
    (hfill : ∀ (j : Nat) (s' : Copying), LoopMinded h i l p c s' ∧ Apart h i l n j s' →
      (fill j).Leads (MindsLoop h i l p c n) s' fun t _ =>
        LoopMinded h i l p c t ∧ Apart h i l n j t) :
    (do let j ← begin a o; fill j; return .object j : Run Copying Value).Leads
      (MindsLoop h i l p c n) s fun s' _ => LoopMinded h i l p c s' := by
  refine .bind (leads_begin_apart k hn hnew ha o) fun j s₁ _ hj => ?_
  exact .bind (hfill j s₁ hj) fun _ _ _ h => .pure h.1

/-- An object that is neither the state nor the list. -/
theorem leads_copyObject_apart (copies : CopiesLoop h i l p c copy) {a : Nat}
    (k : LoopMinded h i l p c s) (hn : n ≤ s.heap.objects.size) (hnew : s.memo.lookup a = none)
    (ha : ¬ (a = i ∨ a = l)) (o : Option Object) :
    (copyObject copy a o).Leads (MindsLoop h i l p c n) s fun s' _ => LoopMinded h i l p c s' := by
  rcases o with - | o
  · exact .pure k
  have hlast : ∀ {s : Copying} (o : Object), LoopMinded h i l p c s → n ≤ s.heap.objects.size →
      s.memo.lookup a = none →
      (do let j ← begin a o; return .object j : Run Copying Value).Leads
        (MindsLoop h i l p c n) s fun s' _ => LoopMinded h i l p c s' := fun o k hn hnew =>
    .bind (leads_begin_apart k hn hnew ha o) fun _ _ _ hj => .pure hj.1
  cases o with
  | list xs =>
    exact leads_begun_apart k hn hnew ha (.list []) fun j _ h =>
      leads_fillList (copies.along n j) (replaces_apart n j) xs h
  | dict es =>
    exact leads_begun_apart k hn hnew ha (.dict []) fun j _ h =>
      leads_fillDict (copies.along n j) (replaces_apart n j) es h
  | tuple xs =>
    rw [copyObject]
    refine .bind (leads_copyAll (copies.alongThere n) xs ⟨k, hn⟩) fun ys s₁ _ h₁ => .get_bind ?_
    obtain ⟨k₁, hn₁⟩ := h₁
    split
    · exact .pure k₁
    · next hnew₁ =>
      split
      · exact .pure k₁
      · exact hlast _ k₁ hn₁ hnew₁
  | thing t =>
    rw [copyObject_thing]
    exact leads_begun_apart k hn hnew ha _ fun j _ h =>
      leads_fillThing (copies.along n j) (replaces_apart n j) t h
  | loop q =>
    rcases q with - | q
    · exact hlast _ k hn hnew
    · rw [copyObject_loop]
      exact leads_begun_apart k hn hnew ha _ fun j _ h =>
        leads_fillLoop (copies.along n j) (replaces_apart n j) q h
  | generator xs => exact .fail _
  | sealed text => exact .fail _

/-- Each object, when the function that copies its parts is right. -/
theorem leads_copyObject_loop (copies : CopiesLoop h i l p c copy) (runs : h.RunsAt i l p c)
    {a : Nat} (k : LoopMinded h i l p c s) (hnew : s.memo.lookup a = none) :
    (copyObject copy a (s.heap.get? a)).Leads (MindsLoop h i l p c s.heap.objects.size) s
      fun s' w => LoopMinded h i l p c s' ∧ (a = i ∨ a = l → s'.memo.lookup a = some w) := by
  have hmemo : ∀ o, (s.begunAt a o).memo.lookup a = some (.object s.heap.objects.size) :=
    fun o => by rw [lookup_begunAt, if_pos rfl]
  by_cases hl : a = l
  · subst hl
    obtain ⟨xs, e, hxs⟩ := runs.list
    rw [k.same a (Heap.lt_size e), e, copyObject]
    have k₁ : LoopMinded h i a p c (s.begunAt a (.list [])) :=
      k.begunAt hnew (fun _ => rfl) fun hi => absurd hi.symm runs.ne
    refine .of_step (Run.exec_bind_ok (exec_begin a (.list []) s))
      ⟨.begunAt hnew _ (Nat.le_refl _), fun _ => k₁⟩ ?_
    have hget : (s.begunAt a (.list [])).heap.get? s.heap.objects.size = some (.list []) := by
      rw [get?_begunAt, if_pos rfl]
    refine .bind (leads_fillList_loop copies k₁ (hmemo _) (Nat.le_refl _) hget ?_)
      fun _ _ _ h₂ => .pure ⟨h₂.1, fun _ => h₂.2⟩
    exact Nat.le_of_eq ((Nat.zero_add _).trans hxs)
  · by_cases hi : a = i
    · subst hi
      rw [k.same a (Heap.lt_size runs.state), runs.state, copyObject_loop]
      have k₁ : LoopMinded h a l p c (s.begunAt a (.loop none)) :=
        k.begunAt hnew (fun e => absurd e hl) fun _ => rfl
      refine .of_step (Run.exec_bind_ok (exec_begin a (.loop none) s))
        ⟨.begunAt hnew _ (Nat.le_refl _), fun _ => k₁⟩ ?_
      have hlast : s.heap.objects.size < (s.begunAt a (.loop none)).heap.objects.size :=
        Nat.lt_of_lt_of_eq (Nat.lt_succ_self _) (Heap.size_add ..).symm
      have hlist : (s.begunAt a (.loop none)).memo.lookup l ≠ some (.object s.heap.objects.size) := by
        rw [lookup_begunAt, if_neg fun e => hl e.symm]
        intro e
        obtain ⟨b, ys, hb, -, eb, -⟩ := k.list _ e
        obtain rfl := Value.object.inj hb
        exact Nat.lt_irrefl _ (Heap.lt_size eb)
      refine .bind (leads_fillLoop_loop copies k₁ (hmemo _) (Nat.le_refl _) hlast hlist)
        fun _ _ _ h₂ => .pure ⟨h₂.1, fun _ => h₂.2⟩
    · have ha : ¬ (a = i ∨ a = l) := not_or.mpr ⟨hi, hl⟩
      have hcopy := leads_copyObject_apart copies k (Nat.le_refl _) hnew ha (s.heap.get? a)
      exact ⟨hcopy.state, fun w s' e => ⟨hcopy.result w s' e, fun h => absurd h ha⟩⟩

/-- Induction on the depth. -/
theorem copiesLoop_deepCopyIn (runs : h.RunsAt i l p c) (depth : Nat) :
    CopiesLoop h i l p c (deepCopyIn depth) := by
  induction depth with
  | zero =>
    intro v s k
    cases v with
    | atom a => exact .pure ⟨k, fun _ e => Value.noConfusion e⟩
    | _ => exact .fail _
  | succ depth ih =>
    intro v s k
    cases v with
    | atom a => exact .pure ⟨k, fun _ e => Value.noConfusion e⟩
    | method v name =>
      rw [deepCopyIn]
      split
      · exact .bind (ih v s k) fun _ _ _ h => .pure ⟨h.1, fun _ e => Value.noConfusion e⟩
      · exact .pure ⟨k, fun _ e => Value.noConfusion e⟩
    | object a =>
      rw [deepCopyIn]
      refine .get_bind ?_
      split
      · next w e =>
        refine .pure ⟨k, fun b hb _ => ?_⟩
        obtain rfl := Value.object.inj hb
        exact e
      · next hnew =>
        have hcopy := leads_copyObject_loop ih runs k hnew
        refine ⟨hcopy.state, fun w s' e => ⟨(hcopy.result w s' e).1, fun b hb ha => ?_⟩⟩
        obtain rfl := Value.object.inj hb
        exact (hcopy.result w s' e).2 ha

theorem copiesLoop_deepCopy (runs : h.RunsAt i l p c) : CopiesLoop h i l p c deepCopy :=
  fun v s k => .get_bind (copiesLoop_deepCopyIn runs _ v s k)

/-! ### Cloning rules -/

/-- What is asked of a function that clones the values of a context: it has the loop in mind, and
binds it to itself or to the copy in the memo. -/
def ClonesLoop (h : Heap) (i l p c : Nat) (clone : Clone) : Prop :=
  ∀ (v : Value) (s : Copying), LoopMinded h i l p c s →
    (clone v).Leads (MindsLoop h i l p c s.heap.objects.size) s fun s' w =>
      LoopMinded h i l p c s' ∧ (v = .object i → w = .object i ∨ s'.memo.lookup i = some w)

theorem clonesLoop_deepCopy (runs : h.RunsAt i l p c) : ClonesLoop h i l p c deepCopy := by
  intro v s k
  have hcopy := copiesLoop_deepCopy runs v s k
  exact ⟨hcopy.state, fun w s' e =>
    ⟨(hcopy.result w s' e).1, fun hv => .inr ((hcopy.result w s' e).2 i hv (.inl rfl))⟩⟩

/-- Notes and records do not matter. -/
theorem MindsLoop.of_same (hheap : s'.heap = s.heap) (hmemo : s'.memo = s.memo) :
    MindsLoop h i l p c n s s' := by
  obtain ⟨heap, memo, noted, records⟩ := s
  obtain ⟨heap', memo', noted', records'⟩ := s'
  subst hheap hmemo
  exact ⟨⟨refl_of (Beyond n) _, fun _ _ e => e, fun _ _ e => .inl e⟩,
    fun k => ⟨k.size_le, k.same, k.list, k.loop⟩⟩

/-- An object is made that is not in the memo. -/
theorem MindsLoop.make (o : Object) :
    MindsLoop h i l p c s.heap.objects.size s { s with heap := (s.heap.add o).2 } := by
  have hold : ∀ b, b < s.heap.objects.size → (s.heap.add o).2.get? b = s.heap.get? b :=
    fun b hb => by rw [Heap.get?_add, if_neg (Nat.ne_of_lt hb)]
  have hsize : s.heap.objects.size ≤ (s.heap.add o).2.objects.size :=
    Nat.le_trans (Nat.le_succ _) (Nat.le_of_eq (Heap.size_add ..).symm)
  refine ⟨⟨⟨hsize, hold⟩, fun _ _ e => e, fun _ _ e => .inl e⟩, fun k => ⟨?_, ?_, ?_, ?_⟩⟩
  · exact Nat.le_trans k.size_le hsize
  · exact fun b hb => (hold b (Nat.lt_of_lt_of_le hb k.size_le)).trans (k.same b hb)
  · intro v e
    obtain ⟨b, ys, rfl, hle, eb, hys⟩ := k.list v e
    exact ⟨b, ys, rfl, hle, (hold b (Heap.lt_size eb)).trans eb, hys⟩
  · intro v e
    obtain ⟨b, o', rfl, hle, eb, ho'⟩ := k.loop v e
    exact ⟨b, o', rfl, hle, (hold b (Heap.lt_size eb)).trans eb, ho'⟩

end Loop

end Copying

open Copying in
/-- Every rule for cloning has loops in mind. -/
theorem CloneRule.clonesLoop {h : Heap} {i l p c : Nat} (runs : h.RunsAt i l p c)
    (rule : CloneRule) : ClonesLoop h i l p c rule.apply := by
  intro v s k
  cases rule with
  | deep => exact clonesLoop_deepCopy runs v s k
  | identity => exact .pure ⟨k, .inl⟩
  | picky =>
    refine .get_bind ?_
    split
    · exact .fail _
    · next xs e =>
      refine .of_ok rfl (.make _) ⟨(MindsLoop.make _).minded k, ?_⟩
      rintro rfl
      rw [Heap.objectOf?, k.same i (Heap.lt_size runs.state), runs.state] at e
      cases e
    · next es e =>
      refine .of_ok rfl (.make _) ⟨(MindsLoop.make _).minded k, ?_⟩
      rintro rfl
      rw [Heap.objectOf?, k.same i (Heap.lt_size runs.state), runs.state] at e
      cases e
    · exact .pure ⟨k, .inl⟩
  | logged =>
    have hnote : MindsLoop h i l p c s.heap.objects.size s
        { s with noted := s.noted ++ [s.heap.typeName v] } := .of_same rfl rfl
    exact .modify_bind hnote (clonesLoop_deepCopy runs v _ (hnote.minded k))

/-! ### Copies of contexts -/

namespace Copying

variable {h : Heap} {i l p c n : Nat} {s : Copying} {clone : Clone}

theorem minds_recordSharing (name : Name) (v : Value) (e : Failure) :
    (recordSharing name v e).Keeps (MindsLoop h i l p c n) s := by
  refine .get_bind ?_
  rcases s.heap.text name.value with f | text
  · exact .of_error rfl (refl_of (MindsLoop h i l p c n) s)
  · exact .of_exec rfl (.of_same rfl rfl) fun _ _ => trivial

/-- Values are cloned or shared with the loop in mind. -/
theorem replacing_loop (clones : ClonesLoop h i l p c clone) :
    Replacing clone recordSharing (LoopMinded h i l p c) (MindsLoop h i l p c h.objects.size)
      fun s v w => v = .object i → w = .object i ∨ s.memo.lookup i = some w where
  keeps _ _ _ _ d hw hv := (hw hv).imp_right (d.adds.memo i _)
  clones name v s k := by
    have hclone := clones v s k
    refine .catching ⟨hclone.state.mono k.size_le, hclone.result⟩ fun f s' d => ?_
    refine .bind (minds_recordSharing name v f) fun _ s'' d' _ => ?_
    exact .pure ⟨d'.minded (d.minded k), .inl⟩

/-- A copy of a context leaves the loop that it is a copy of alone. -/
theorem runsAt_copyWith (runs : h.RunsAt i l p c) (clones : ClonesLoop h i l p c clone)
    {x z : Context Value} (e : (x.copyWith clone recordSharing).exec ⟨h, [], [], []⟩ = (.ok z, s)) :
    s.heap.RunsAt i l p c := by
  obtain ⟨k, -⟩ := ((replacing_loop clones).context x (LoopMinded.start h i l p c)).result z s e
  exact runs.of_same (k.same i runs.state_lt) (k.same l runs.list_lt)

/-- A copy that has as many parts is not unfinished. -/
theorem not_unfinished {a j : Nat} (hj : s.memo.lookup a = some (.object j))
    (hparts : (h.get? a).map (·.parts.length) = (s.heap.get? j).map (·.parts.length)) :
    ¬ Unfinished h s a := by
  rintro ⟨b, hb, o, o', e, e', hlt⟩
  obtain rfl : j = b := Value.object.inj (Option.some.inj (hj.symm.trans hb))
  rw [e, e'] at hparts
  exact absurd hlt (Nat.not_lt.mpr (Nat.le_of_eq (Option.some.inj hparts)))

/-- In a copy of a context a loop is bound to itself or to a new one, at the same position in a list
of as many items; unless a copy that failed has left the loop or its list unfinished. -/
theorem runsAt_of_copyWith (runs : h.RunsAt i l p c) (clones : ClonesLoop h i l p c clone)
    {x z : Context Value} (e : (x.copyWith clone recordSharing).exec ⟨h, [], [], []⟩ = (.ok z, s))
    (hi : ¬ Unfinished h s i) (hl : ¬ Unfinished h s l) :
    h.objects.size ≤ s.heap.objects.size ∧
      x.Matches (fun v w => v = .object i → ∃ j b, w = .object j ∧ s.heap.RunsAt j b p c ∧
        (j = i ∧ b = l ∨ h.objects.size ≤ j ∧ h.objects.size ≤ b)) z := by
  obtain ⟨k, hmatches⟩ :=
    ((replacing_loop clones).context x (LoopMinded.start h i l p c)).result z s e
  refine ⟨k.size_le, hmatches.imp fun f f' hf => hf.imp fun b b' hb => ⟨hb.1, fun hv => ?_⟩⟩
  obtain ⟨xs, el, hxs⟩ := runs.list
  rcases hb.2 hv with hw | hw
  · -- shared
    exact ⟨i, l, hw, runsAt_copyWith runs clones e, .inl ⟨rfl, rfl⟩⟩
  · obtain ⟨j, o, hj, hold, ej, ho⟩ := k.loop _ hw
    rw [hj] at hw
    rcases o with - | q
    · exact absurd ⟨j, hw, _, _, runs.state, ej, Nat.zero_lt_one⟩ hi
    · obtain ⟨rfl, hq⟩ := ho q rfl
      obtain ⟨b, ys, hb, hold', eb, hys⟩ := k.list _ hq
      obtain rfl := Value.object.inj hb
      have hlen : ys.length = c := by
        refine Nat.le_antisymm hys (Nat.not_lt.mp fun hlt => hl ⟨q.items, hq, _, _, el, eb, ?_⟩)
        exact Nat.lt_of_lt_of_eq hlt hxs.symm
      exact ⟨j, q.items, hj, ⟨ej, ys, eb, hlen⟩, .inr ⟨hold, hold'⟩⟩

end Copying

end Stencil
