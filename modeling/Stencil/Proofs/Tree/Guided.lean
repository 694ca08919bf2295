/-
Stencil/Proofs/Tree/Guided.lean

The reading with a cursor reads what the readers read, whatever the tokens are and however many
steps there are (`Scan.agrees_template`).  Induction on the steps, one lemma for each reader; the
two readings of a part agree from where the cursor stands when it begins.

The readers look two tokens ahead only where there are two more, or else at the last token; that is
where the cases of a call of a tag and of a region without a keyword need a reason
(`exists_of_peekIs`).
-/
import Stencil.Proofs.Tree.Cursor
import Stencil.Proofs.Tree.Outcome

namespace Stencil

variable {α β γ δ : Type}

namespace Scan

variable {c : Cursor} {ts : List Token} {t opener terminator : Token} {n : Nat}

/-! ### Single tokens -/

theorem agrees_expect {kind : TokenKind} (hkind : kind ≠ .eof) (hleft : c.left = ts) :
    Agrees Prod.mk c (Reader.expect kind ts) (expect kind) := by
  cases ts with
  | nil => exact .current_nil hleft rfl
  | cons t rest =>
    refine .current hleft fun c hleft => ?_
    rw [Reader.expect]
    split
    · next h =>
      rw [← bind_pure advance]
      exact .advance hleft (h ▸ hkind) fun c hleft => .pure (by rw [hleft])
    · exact .refuse rfl

theorem agrees_expectWord {word : String} (hleft : c.left = ts) :
    Agrees Prod.mk c (Reader.expectWord word ts) (expectWord word) := by
  cases ts with
  | nil => exact .current_nil hleft rfl
  | cons t rest =>
    refine .current hleft fun c hleft => ?_
    rw [Reader.expectWord]
    split
    · next h =>
      rw [← bind_pure advance]
      exact .advance hleft (by simp [h.1]) fun c hleft => .pure (by rw [hleft])
    · exact .refuse rfl

theorem agrees_skipComma (hleft : c.left = ts) :
    Agrees (fun _ rest => rest) c (Reader.skipComma ts) skipComma := by
  cases ts with
  | nil => exact .current_nil hleft rfl
  | cons t rest =>
    refine .current hleft fun c hleft => ?_
    rw [Reader.skipComma]
    split
    · next h => exact .advance hleft (by simp [h]) fun c hleft => .pure (by rw [hleft])
    · exact .pure (by rw [hleft])

/-! ### Expressions -/

theorem agrees_path (e : Expr Atom) (hleft : c.left = ts) (hn : ts.length < n) :
    Agrees Prod.mk c (Reader.path e ts) (path n e) := by
  induction n generalizing c ts e with
  | zero => cases hn
  | succ n ih =>
    match ts with
    | [] => exact .current_nil hleft rfl
    | [t] =>
      refine .current hleft fun c hleft => ?_
      rw [Reader.path]
      split
      · next h => exact .advance hleft (by simp [h]) fun c hleft => .current_nil hleft rfl
      · exact .pure (by rw [hleft])
    | t :: segment :: rest =>
      refine .current hleft fun c hleft => ?_
      rw [Reader.path]
      split
      · next h =>
        refine .advance hleft (by simp [h]) fun c hleft => .current hleft fun c hleft => ?_
        split
        · next hs =>
          refine .advance hleft (by rcases hs with hs | hs <;> simp [hs]) fun c hleft => ?_
          exact ih _ hleft (by simp only [List.length_cons] at hn; omega)
        · exact .refuse rfl
      · exact .pure (by rw [hleft])

/-- Reading expressions with `n` steps. -/
structure Expressing (n : Nat) : Prop where
  expression : ∀ {c ts}, c.left = ts →
    Agrees Prod.mk c (Reader.expression n ts) (Scan.expression n)
  primary : ∀ {c ts}, c.left = ts → Agrees Prod.mk c (Reader.primary n ts) (Scan.primary n)
  filters : ∀ {c ts} value, c.left = ts →
    Agrees Prod.mk c (Reader.filters n value ts) (Scan.filters n value)
  arguments : ∀ {c ts}, c.left = ts →
    Agrees Prod.mk c (Reader.arguments n ts) (Scan.arguments n)

namespace Expressing

theorem zero : Expressing 0 where
  expression _ := .throw rfl
  primary _ := .throw rfl
  filters _ _ := .throw rfl
  arguments _ := .throw rfl

theorem expression_succ (r : Expressing n) (hleft : c.left = ts) :
    Agrees Prod.mk c (Reader.expression (n + 1) ts) (Scan.expression (n + 1)) := by
  rw [Scan.expression]
  cases ts with
  | nil => exact .current_nil hleft rfl
  | cons t rest =>
    refine .current hleft fun c hleft => ?_
    rw [Reader.expression]
    split
    · next h =>
      refine .advance hleft (by simp [h.1]) fun c hleft => ?_
      refine (r.expression hleft).cases (fun e heq => by rw [heq]) fun operand c heq => ?_
      rw [heq]
      exact .pure rfl
    · refine (r.primary hleft).cases (fun e heq => by rw [heq]) fun value c heq => ?_
      rw [heq]
      exact r.filters value rfl

theorem primary_succ (r : Expressing n) (hleft : c.left = ts) :
    Agrees Prod.mk c (Reader.primary (n + 1) ts) (Scan.primary (n + 1)) := by
  rw [Scan.primary]
  cases ts with
  | nil => exact .current_nil hleft rfl
  | cons t rest =>
    refine .current hleft fun c hleft => ?_
    rw [Reader.primary]
    rcases h : Reader.literal? t with - | e | value
    · simp only
      split
      · next h =>
        refine .advance hleft (by simp [h]) fun c hleft => ?_
        have hn : rest.length < c.left.length + 1 := by rw [hleft]; exact Nat.lt_succ_self _
        exact .steps (n := path (c.left.length + 1) _) .refl rfl (agrees_path _ hleft hn)
      · split
        · next h =>
          refine .advance hleft (by simp [h]) fun c hleft => ?_
          refine (r.expression hleft).cases (fun e heq => by rw [heq]) fun inner c heq => ?_
          simp only [heq]
          refine (agrees_expect (by decide) rfl).cases (fun e heq => by rw [heq]) fun _ c heq => ?_
          rw [heq]
          exact .pure rfl
        · exact .refuse rfl
    · exact .advance hleft (Reader.ne_eof_of_literal? h) fun c hleft => .throw rfl
    · exact .advance hleft (Reader.ne_eof_of_literal? h) fun c hleft => .pure (by rw [hleft])

theorem filters_succ (r : Expressing n) (value : Expr Atom) (hleft : c.left = ts) :
    Agrees Prod.mk c (Reader.filters (n + 1) value ts) (Scan.filters (n + 1) value) := by
  rw [Scan.filters]
  cases ts with
  | nil => exact .current_nil hleft rfl
  | cons t rest =>
    refine .current hleft fun c hleft => ?_
    rw [Reader.filters]
    split
    · next h =>
      refine .advance hleft (by simp [h]) fun c hleft => ?_
      refine (agrees_expect (by decide) hleft).cases (fun e heq => by rw [heq])
        fun name c heq => ?_
      rw [heq]
      rcases hrest : c.left with - | ⟨next, more⟩
      · exact .current_nil hrest rfl
      · refine .current hrest fun c hleft => ?_
        simp only
        split
        · next hopen =>
          refine .advance hleft (by simp [hopen]) fun c hleft => ?_
          refine (r.arguments hleft).cases (fun e heq => by rw [heq]) fun args c heq => ?_
          rw [heq]
          exact r.filters _ rfl
        · exact r.filters _ hleft
    · exact .pure (by rw [hleft])

theorem arguments_succ (r : Expressing n) (hleft : c.left = ts) :
    Agrees Prod.mk c (Reader.arguments (n + 1) ts) (Scan.arguments (n + 1)) := by
  rw [Scan.arguments]
  cases ts with
  | nil => exact .current_nil hleft rfl
  | cons t rest =>
    refine .current hleft fun c hleft => ?_
    rw [Reader.arguments]
    split
    · next h => exact .advance hleft (by simp [h]) fun c hleft => .pure (by rw [hleft])
    · refine (r.expression hleft).cases (fun e heq => by rw [heq]) fun arg c heq => ?_
      rw [heq]
      rcases hrest : c.left with - | ⟨next, more⟩
      · exact .current_nil hrest rfl
      · refine .current hrest fun c hleft => ?_
        simp only
        split
        · next h =>
          refine .advance hleft (by simp [h]) fun c hleft => ?_
          refine (r.arguments hleft).cases (fun e heq => by rw [heq]) fun args c heq => ?_
          rw [heq]
          exact .pure rfl
        · split
          · next h => exact .advance hleft (by simp [h]) fun c hleft => .pure (by rw [hleft])
          · exact .refuse rfl

/-- Expressions: induction on the steps. -/
theorem all : ∀ n, Expressing n
  | 0 => zero
  | n + 1 =>
    { expression := (all n).expression_succ
      primary := (all n).primary_succ
      filters := (all n).filters_succ
      arguments := (all n).arguments_succ }

end Expressing

theorem agrees_expression (n : Nat) (hleft : c.left = ts) :
    Agrees Prod.mk c (Reader.expression n ts) (Scan.expression n) :=
  (Expressing.all n).expression hleft

/-! ### Bindings and tag calls -/

theorem agrees_bindings (n : Nat) (hleft : c.left = ts) :
    Agrees Prod.mk c (Reader.bindings n ts) (bindings n) := by
  induction n generalizing c ts with
  | zero => exact .throw rfl
  | succ n ih =>
    cases ts with
    | nil => exact .current_nil hleft rfl
    | cons t rest =>
      refine .current hleft fun c hleft => ?_
      rw [Reader.bindings]
      split
      · exact .pure (by rw [hleft])
      · refine (agrees_expect (by decide) hleft).bind fun name c => ?_
        refine (agrees_expect (by decide) rfl).bind fun _ c => ?_
        refine (agrees_expression n rfl).bind fun value c => ?_
        refine (agrees_skipComma rfl).bind fun _ c => ?_
        exact (ih rfl).bind fun others c => .pure rfl

/-- Where the token ahead is of another kind than the first, there is a second token. -/
theorem exists_of_peekIs {rest : List Token} {k : Nat} {kind : TokenKind} (hkind : t.kind ≠ kind)
    (h : Reader.peekIs (t :: rest) k kind = true) : ∃ next more, rest = next :: more := by
  refine List.exists_cons_of_ne_nil ?_
  rintro rfl
  cases k <;> exact hkind (by simpa [Reader.peekIs, Reader.peek?] using h)

section Ahead

variable {give : α → List Token → β} {x : Except Refusal β} {k : Bool → Scan α} {rest : List Token}

theorem agrees_atTarget (hleft : c.left = t :: rest)
    (next : ∀ b (c' : Cursor), (b = true ↔ t.kind = .name ∧ t.text = "as" ∧
        Reader.peekIs (t :: rest) 1 .name ∧ Reader.peekIs (t :: rest) 2 .blockEnd) →
      c'.left = t :: rest → Agrees give c' x (k b)) :
    Agrees give c x (atTarget t >>= k) := by
  unfold atTarget
  split
  · next h =>
    rw [bind_assoc]
    refine .ahead hleft fun name c hname hleft => ?_
    split
    · next hkind =>
      rw [bind_assoc]
      refine .ahead hleft fun close c hclose hleft => ?_
      exact next _ _ (by simp [h, Reader.peekIs, hname, hkind, hclose]) hleft
    · next hkind => exact next _ _ (by simp [h, Reader.peekIs, hname, hkind]) hleft
  · next h => exact next _ _ (by simpa using fun h₁ h₂ => absurd ⟨h₁, h₂⟩ h) hleft

theorem agrees_atNamed (hleft : c.left = t :: rest)
    (next : ∀ b (c' : Cursor), (b = true ↔ t.kind = .name ∧ Reader.peekIs (t :: rest) 1 .assign) →
      c'.left = t :: rest → Agrees give c' x (k b)) :
    Agrees give c x (atNamed t >>= k) := by
  unfold atNamed
  split
  · next h =>
    rw [bind_assoc]
    refine .ahead hleft fun mark c hmark hleft => ?_
    exact next _ _ (by simp [h, Reader.peekIs, hmark]) hleft
  · next h => exact next _ _ (by simp [h]) hleft

end Ahead

theorem agrees_callParts (tag : String) (n : Nat) (named : Bool) (hleft : c.left = ts) :
    Agrees Prod.mk c (Reader.callParts tag n named ts) (callParts tag n named) := by
  induction n generalizing c ts named with
  | zero => exact .throw rfl
  | succ n ih =>
    cases ts with
    | nil => exact .current_nil hleft rfl
    | cons t rest =>
      refine .current hleft fun c hleft => ?_
      rw [Reader.callParts]
      split
      · exact .pure (by rw [hleft])
      · refine agrees_atTarget hleft fun b c hb hleft => ?_
        split
        · next h =>
          rw [if_pos (hb.mpr h)]
          obtain ⟨hkind, -, hname, hclose⟩ := h
          obtain ⟨target, more, rfl⟩ := exists_of_peekIs (by simp [hkind]) hclose
          have htarget : target.kind = .name := by simpa [Reader.peekIs, Reader.peek?] using hname
          refine .advance hleft (by simp [hkind]) fun c hleft => ?_
          exact .advance hleft (by simp [htarget]) fun c hleft => .pure (by rw [hleft]; rfl)
        · next h =>
          rw [if_neg (mt hb.mp h)]
          refine agrees_atNamed hleft fun b c hb hleft => ?_
          split
          · next h =>
            rw [if_pos (hb.mpr h)]
            obtain ⟨hkind, hassign⟩ := h
            obtain ⟨mark, more, rfl⟩ := exists_of_peekIs (by simp [hkind]) hassign
            have hmark : mark.kind = .assign := by
              simpa [Reader.peekIs, Reader.peek?] using hassign
            refine .advance hleft (by simp [hkind]) fun c hleft => ?_
            refine .advance hleft (by simp [hmark]) fun c hleft => ?_
            refine (agrees_expression n hleft).bind fun value c => ?_
            refine (agrees_skipComma rfl).bind fun _ c => ?_
            exact (ih _ rfl).bind fun parts c => .pure rfl
          · next h =>
            rw [if_neg (mt hb.mp h)]
            split
            · exact .refuse rfl
            · refine (agrees_expression n hleft).bind fun value c => ?_
              refine (agrees_skipComma rfl).bind fun _ c => ?_
              exact (ih _ rfl).bind fun parts c => .pure rfl

/-! ### Bodies and blocks -/

/-- The nodes of a body, what ended it and the tokens that are left, as a reader gives them. -/
def bodyReading (r : List (Node Atom) × Option Token) (rest : List Token) : Reader.BodyReading :=
  ⟨r.1, r.2, rest⟩

/-- The nodes of a closed body, what closed it and the tokens that are left. -/
def closedReading (r : γ × Token) (rest : List Token) : γ × Token × List Token :=
  (r.1, r.2, rest)

theorem agrees_closedBy (r : List (Node Atom) × Option Token) :
    Agrees closedReading c ((bodyReading r c.left).closedBy opener) (closedBy opener r) := by
  obtain ⟨nodes, - | t⟩ := r
  · exact .refuse rfl
  · exact .pure rfl

theorem agrees_finishBlock (hleft : c.left = ts) :
    Agrees (fun _ rest => rest) c (Reader.finishBlock terminator ts) (finishBlock terminator) := by
  rw [Reader.finishBlock, finishBlock]
  split
  · refine (agrees_expect (by decide) hleft).cases (fun e heq => by rw [heq]; rfl)
      fun t c heq => ?_
    rw [heq]
    exact .pure rfl
  · exact .refuse rfl

/-- Reading bodies and blocks with `n` steps; a block from its keyword on. -/
structure Attending (n : Nat) : Prop where
  body : ∀ {c ts} stops, c.left = ts →
    Agrees bodyReading c (Reader.body n stops ts) (Scan.body n stops)
  block : ∀ {c opener ts}, c.left = opener :: ts → opener.kind = .name →
    Agrees Prod.mk c (Reader.block n opener ts) (Scan.block n)
  branches : ∀ {c opener terminator ts}, c.left = ts →
    Agrees closedReading c (Reader.branches n opener terminator ts)
      (Scan.branches n opener terminator)

namespace Attending

theorem zero : Attending 0 where
  body _ _ := .throw rfl
  block _ _ := .throw rfl
  branches _ := .throw rfl

theorem body_succ (r : Attending n) (stops : List String) (hleft : c.left = ts) :
    Agrees bodyReading c (Reader.body (n + 1) stops ts) (Scan.body (n + 1) stops) := by
  -- the nodes that follow, once one was read
  have others {c : Cursor} (node : Node Atom) : Agrees bodyReading c
      (do
        let b ← Reader.body n stops c.left
        .ok { b with nodes := node :: b.nodes })
      (do
        let b ← Scan.body n stops
        return (node :: b.1, b.2)) :=
    (r.body stops rfl).bind fun b c => .pure rfl
  rw [Scan.body]
  cases ts with
  | nil => exact .current_nil hleft rfl
  | cons t rest =>
    refine .current hleft fun c hleft => ?_
    rw [Reader.body]
    cases hkind : t.kind with
    | eof => exact .pure (by rw [hleft]; rfl)
    | data =>
      refine .advance hleft (by simp [hkind]) fun c hleft => ?_
      rw [← hleft]
      exact others _
    | variableBegin =>
      refine .advance hleft (by simp [hkind]) fun c hleft => ?_
      refine (agrees_expression n hleft).bind fun value c => ?_
      exact (agrees_expect (by decide) rfl).bind fun _ c => others _
    | blockBegin =>
      refine .ahead hleft fun keyword c hkeyword hleft => ?_
      simp only [hkeyword]
      split
      · exact .refuse rfl
      · next hname =>
        have hname : keyword.kind = .name := by simpa using hname
        obtain ⟨next, more, rfl⟩ : ∃ next more, rest = next :: more :=
          @exists_of_peekIs t rest 1 .name (by simp [hkind])
            (by simp [Reader.peekIs, hkeyword, hname])
        obtain rfl : next = keyword := by simpa [Reader.peek?] using hkeyword
        split
        · refine .advance hleft (by simp [hkind]) fun c hleft => ?_
          exact .advance hleft (by simp [hname]) fun c hleft => .pure (by rw [hleft]; rfl)
        · split
          · exact .refuse rfl
          · refine .advance hleft (by simp [hkind]) fun c hleft => ?_
            exact (r.block hleft hname).bind fun node c => others _
    | _ => exact .refuse rfl

/-- A body that must be closed. -/
theorem closed (r : Attending n) {give' : γ → List Token → δ} {stops : List String}
    {f : List (Node Atom) × Token × List Token → Except Refusal δ}
    {g : List (Node Atom) × Token → Scan γ} (hleft : c.left = ts)
    (next : ∀ nodes terminator c', Agrees give' c' (f (nodes, terminator, c'.left))
      (g (nodes, terminator))) :
    Agrees give' c (Reader.body n stops ts >>= fun b => b.closedBy opener >>= f)
      (Scan.body n stops >>= fun b => closedBy opener b >>= g) :=
  (r.body stops hleft).bind fun b _ => (agrees_closedBy b).bind fun (nodes, t) c => next nodes t c

theorem lastBody (r : Attending n) {keyword : String} (hleft : c.left = ts) :
    Agrees closedReading c (Reader.lastBody n opener keyword terminator ts)
      (Scan.lastBody (Scan.body n []) opener keyword terminator) := by
  rw [Reader.lastBody, Scan.lastBody]
  split
  · refine (agrees_expect (by decide) hleft).bind fun _ c => ?_
    exact (r.body [] rfl).bind fun b c => agrees_closedBy b
  · exact .pure (by rw [hleft]; rfl)

theorem block_succ (r : Attending n) (hleft : c.left = opener :: ts) (hname : opener.kind = .name) :
    Agrees Prod.mk c (Reader.block (n + 1) opener ts) (Scan.block (n + 1)) := by
  rw [Scan.block]
  refine .advance hleft (by simp [hname]) fun c hleft => ?_
  by_cases hfor : opener.text = "for"
  · rw [Reader.block_loop hfor, if_pos hfor]
    refine (agrees_expect (by decide) hleft).bind fun target c => ?_
    refine (agrees_expectWord rfl).bind fun _ c => ?_
    refine (agrees_expression n rfl).bind fun items c => ?_
    refine (agrees_expect (by decide) rfl).bind fun _ c => ?_
    refine r.closed rfl fun nodes terminator c => ?_
    refine (r.lastBody rfl).bind fun (empty, terminator) c => ?_
    exact (agrees_finishBlock rfl).bind fun _ c => .pure rfl
  rw [if_neg hfor]
  by_cases hif : opener.text = "if"
  · rw [Reader.block_choice hif, if_pos hif]
    refine (agrees_expression n hleft).bind fun test c => ?_
    refine (agrees_expect (by decide) rfl).bind fun _ c => ?_
    refine r.closed rfl fun nodes terminator c => ?_
    refine (r.branches rfl).bind fun (others, terminator) c => ?_
    refine (r.lastBody rfl).bind fun (otherwise, terminator) c => ?_
    exact (agrees_finishBlock rfl).bind fun _ c => .pure rfl
  rw [if_neg hif, Reader.block, if_neg hfor, if_neg hif]
  split
  · refine (agrees_bindings n hleft).bind fun bound c => ?_
    dsimp only
    split
    · exact .refuse rfl
    · refine (agrees_expect (by decide) rfl).bind fun _ c => ?_
      refine r.closed rfl fun nodes terminator c => ?_
      exact (agrees_finishBlock rfl).bind fun _ c => .pure rfl
  · split
    · refine (agrees_expect (by decide) hleft).bind fun target c => ?_
      refine (agrees_expect (by decide) rfl).bind fun _ c => ?_
      refine (agrees_expression n rfl).bind fun value c => ?_
      exact (agrees_expect (by decide) rfl).bind fun _ c => .pure rfl
    · refine (agrees_callParts opener.text n false hleft).bind fun parts c => ?_
      exact (agrees_expect (by decide) rfl).bind fun _ c => .pure rfl

theorem branches_succ (r : Attending n) (hleft : c.left = ts) :
    Agrees closedReading c (Reader.branches (n + 1) opener terminator ts)
      (Scan.branches (n + 1) opener terminator) := by
  rw [Reader.branches, Scan.branches]
  split
  · refine (agrees_expression n hleft).bind fun test c => ?_
    refine (agrees_expect (by decide) rfl).bind fun _ c => ?_
    refine r.closed rfl fun nodes terminator c => ?_
    exact (r.branches rfl).bind fun _ c => .pure rfl
  · exact .pure (by rw [hleft]; rfl)

/-- Bodies and blocks: induction on the steps. -/
theorem all : ∀ n, Attending n
  | 0 => zero
  | n + 1 =>
    { body := (all n).body_succ
      block := (all n).block_succ
      branches := (all n).branches_succ }

end Attending

/-! ### Templates -/

/-- Reads a whole template. -/
def template : Scan (Tree Atom) := do
  let c ← get
  let (nodes, terminator?) ← body (Reader.enough c.left) []
  match terminator? with
  | some t => refuse (.unexpected t) t
  | none => return ⟨⟨1, 0⟩, nodes⟩

/-- The cursor reads the tree that the tokens are read as, or stops for the same reason. -/
theorem agrees_template (ts : List Token) :
    Agrees (fun tree _ => tree) (.start ts) (Tree.ofTokens ts) template := by
  refine .steps (n := body (Reader.enough ts) [] >>= fun (nodes, terminator?) =>
    match terminator? with
    | some t => refuse (.unexpected t) t
    | none => return ⟨⟨1, 0⟩, nodes⟩) .refl rfl ?_
  refine ((Attending.all _).body [] rfl).bind fun (nodes, terminator?) c => ?_
  cases terminator? with
  | some t => exact .refuse rfl
  | none => exact .pure rfl

end Scan

end Stencil
