/-
Stencil/Proofs/Tree/Body.lean

How the printed form of nodes is read.  A body is read node by node (`BodyRead`), up to a region
whose keyword turns to something else (`Turns`): a further branch, the last body of a block, or its
end.  What a block reads at such a turn depends on the keyword alone, so the further branches and
the last body are stated from turn to turn, and a block is one chain of them.
-/
import Stencil.Proofs.Tree.Header

namespace Stencil

open Grammar

namespace Reader

variable {n : Nat} {stops : List String} {ts us rest left more : List Token}
  {t k opening close opener : Token} {value : Expr Atom} {node : Node Atom}
  {ns ms : List (Node Atom)}

/-! ### The steps of a body -/

/-- A reading with nodes put in front. -/
def BodyReading.prepend (ns : List (Node Atom)) (b : BodyReading) : BodyReading :=
  { b with nodes := ns ++ b.nodes }

theorem body_eof (h : t.kind = .eof) :
    body (n + 1) stops (t :: rest) = .ok ⟨[], none, t :: rest⟩ := by
  simp [body, h]

theorem body_data (h : t.kind = .data) :
    body (n + 1) stops (t :: rest)
      = (body n stops rest).map (BodyReading.prepend [.data t.position t.text]) := by
  rcases hb : body n stops rest with f | b <;>
    simp [body, h, hb, bind, Except.bind, Except.map, BodyReading.prepend]

theorem body_output (h : t.kind = .variableBegin)
    (hx : expression n more = .ok (value, close :: rest)) (hclose : close.kind = .variableEnd) :
    body (n + 1) stops (t :: more)
      = (body n stops rest).map (BodyReading.prepend [.output t.position value]) := by
  rcases hb : body n stops rest with f | b <;>
    simp [body, h, hx, expect, hclose, hb, bind, Except.bind, Except.map, BodyReading.prepend]

theorem body_stop (h : t.kind = .blockBegin) (hk : k.kind = .name)
    (stop : k.text ∈ stops ∨ k.text ∈ endKeywords) :
    body (n + 1) stops (t :: k :: rest) = .ok ⟨[], some k, rest⟩ := by
  simp [body, h, peek?, hk, stop]

theorem body_block (h : t.kind = .blockBegin) (hk : k.kind = .name)
    (go : ¬ (k.text ∈ stops ∨ k.text ∈ endKeywords)) (hc : k.text ∉ continuationKeywords)
    (hx : block n k rest = .ok (node, left)) :
    body (n + 1) stops (t :: k :: rest)
      = (body n stops left).map (BodyReading.prepend [node]) := by
  rcases hb : body n stops left with f | b <;>
    simp [body, h, peek?, hk, go, hc, hx, hb, bind, Except.bind, Except.map, BodyReading.prepend]

/-! ### Bodies -/

/-- The tokens are read as nodes, whatever ends the body and whatever follows. -/
def BodyRead (ts : List Token) (ns : List (Node Atom)) : Prop :=
  ∀ {n stops rest}, stops ⊆ continuationKeywords → Enough n (ts ++ rest) →
    ∃ m, Enough m rest ∧
      body n stops (ts ++ rest) = (body m stops rest).map (BodyReading.prepend ns)

theorem BodyRead.nil : BodyRead [] [] := by
  intro n stops rest _ enough
  refine ⟨n, enough, ?_⟩
  rw [List.nil_append]
  rcases body n stops rest with f | b <;> rfl

theorem BodyRead.append (h : BodyRead ts ns) (h' : BodyRead us ms) :
    BodyRead (ts ++ us) (ns ++ ms) := by
  intro n stops rest hstops enough
  rw [List.append_assoc] at enough ⊢
  obtain ⟨m, hm, e⟩ := h hstops enough
  obtain ⟨m', hm', e'⟩ := h' hstops hm
  refine ⟨m', hm', ?_⟩
  rw [e, e']
  rcases body m' stops rest with f | b <;> simp [Except.map, BodyReading.prepend]

/-- The tokens begin with a region whose keyword is `k`; the rest follows the keyword. -/
def Turns (ts : List Token) (k : Token) (rest : List Token) : Prop :=
  ∃ opening, ts = opening :: k :: rest ∧ opening.kind = .blockBegin ∧ k.kind = .name

/-- A body is read up to a turn that ends it. -/
theorem BodyRead.turn (h : BodyRead ts ns) (turns : Turns us k rest)
    (hstops : stops ⊆ continuationKeywords) (stop : k.text ∈ stops ∨ k.text ∈ endKeywords)
    (enough : Enough n (ts ++ us)) : body n stops (ts ++ us) = .ok ⟨ns, some k, rest⟩ := by
  obtain ⟨opening, rfl, hopen, hk⟩ := turns
  obtain ⟨m, hm, e⟩ := h hstops enough
  obtain ⟨m, rfl⟩ := hm.steps
  rw [e, body_stop hopen hk stop]
  simp [Except.map, BodyReading.prepend]

/-- A body is read up to the end of the tokens. -/
theorem BodyRead.eof (h : BodyRead ts ns) (ht : t.kind = .eof) (enough : Enough n (ts ++ [t])) :
    body n [] (ts ++ [t]) = .ok ⟨ns, none, [t]⟩ := by
  obtain ⟨m, hm, e⟩ := h (List.nil_subset _) enough
  obtain ⟨m, rfl⟩ := hm.steps
  rw [e, body_eof ht]
  simp [Except.map, BodyReading.prepend]

/-! ### Regions -/

theorem exists_region {r : Region} {inner : List Lexeme}
    (h : ts.map Token.lexeme = r.around inner) :
    ∃ opening us close, ts = opening :: (us ++ [close]) ∧ opening.kind = r.beginKind ∧
      us.map Token.lexeme = inner ∧ close.kind = r.endKind := by
  obtain ⟨opening, rest, rfl, hopen, h⟩ := List.map_eq_cons_iff.mp h
  obtain ⟨us, last, rfl, hus, h⟩ := List.map_eq_append_iff.mp h
  obtain ⟨close, rfl, hclose⟩ := List.map_eq_singleton_iff.mp h
  exact ⟨opening, us, close, rfl, congrArg Prod.fst hopen, hus, congrArg Prod.fst hclose⟩

/-- A block region: its keyword, what stands behind the keyword, and its end. -/
structure Heads (hs : List Token) (k : Token) (us : List Token) (close : Token) : Prop where
  turns : ∀ rest, Turns (hs ++ rest) k (us ++ close :: rest)
  close : close.kind = .blockEnd

theorem exists_heads {keyword : String} {inner : List Lexeme}
    (h : ts.map Token.lexeme = blockPrinted keyword inner) :
    ∃ k us close, Heads ts k us close ∧ k.text = keyword ∧ us.map Token.lexeme = inner := by
  obtain ⟨opening, more, close, rfl, hopen, hmore, hclose⟩ := exists_region h
  obtain ⟨k, us, rfl, hk, hus⟩ := List.map_eq_cons_iff.mp hmore
  obtain ⟨kind, text⟩ := Token.lexeme_eq_iff.mp hk
  exact ⟨k, us, close, ⟨fun rest => ⟨opening, by simp, hopen, kind⟩, hclose⟩, text, hus⟩

theorem Turns.lt (h : Turns ts k rest) : rest.length < ts.length := by
  obtain ⟨opening, rfl, -⟩ := h
  simp +arith

theorem expect_of_kind {kind : TokenKind} (h : t.kind = kind) :
    expect kind (t :: rest) = .ok (t, rest) := by
  rw [expect, if_pos h]

theorem finishBlock_end (hk : k.text = "end") (hclose : close.kind = .blockEnd) :
    finishBlock k (close :: rest) = .ok rest := by
  rw [finishBlock, if_pos (by simp [hk, endKeywords]), expect_of_kind hclose]
  rfl

/-! ### The last body of a block -/

/-- Reads the last body of a block, if the keyword that ended the one before it says so. -/
def lastBody (n : Nat) (opener : Token) (keyword : String) (terminator : Token) (ts : List Token) :
    Except Refusal (List (Node Atom) × Token × List Token) :=
  if terminator.text = keyword then do
    let (_, ts) ← expect .blockEnd ts
    let b ← body n [] ts
    b.closedBy opener
  else .ok ([], terminator, ts)

/-- The tokens are read as the last body of a block under a keyword, up to the end of the block. -/
def LastRead (keyword : String) (ts : List Token) (ns : List (Node Atom)) : Prop :=
  ∀ {us k rest}, Turns us k rest → k.text = "end" → ∃ k₁ rest₁, Turns (ts ++ us) k₁ rest₁ ∧
    (k₁.text = keyword ∨ k₁.text = "end") ∧ ∀ {n opener}, Enough n (ts ++ us) →
      lastBody n opener keyword k₁ rest₁ = .ok (ns, k, rest)

theorem LastRead.nil {keyword : String} (hkeyword : keyword ≠ "end") : LastRead keyword [] [] := by
  intro us k rest turns hk
  refine ⟨k, rest, turns, .inr hk, fun _ => ?_⟩
  rw [lastBody, if_neg (by rw [hk]; exact hkeyword.symm)]

theorem LastRead.body {keyword : String} {ks : List Token} (h : Heads ks opener [] close)
    (hkeyword : opener.text = keyword) (hns : BodyRead ts ns) : LastRead keyword (ks ++ ts) ns := by
  intro us k rest turns hk
  have hturn := h.turns (ts ++ us)
  refine ⟨opener, close :: (ts ++ us), by simpa using hturn, .inl hkeyword, ?_⟩
  intro n opener enough
  have hb : Reader.body n [] (ts ++ us) = .ok ⟨ns, some k, rest⟩ :=
    hns.turn turns (List.nil_subset _) (.inr (by simp [hk, endKeywords]))
      (enough.mono (by simp))
  rw [lastBody, if_pos hkeyword, expect_of_kind h.close]
  simp [hb, bind, Except.bind, BodyReading.closedBy]

/-! ### Further branches -/

/-- The tokens are read as further branches, up to the last body or the end of the block. -/
def BranchesRead (ts : List Token) (bs : List (Branch Atom)) : Prop :=
  ∀ {us k rest}, Turns us k rest → (k.text = "else" ∨ k.text = "end") →
    ∃ k₁ rest₁, Turns (ts ++ us) k₁ rest₁ ∧
      (k₁.text = "elif" ∨ k₁.text = "else" ∨ k₁.text = "end") ∧
      ∀ {n opener}, Enough n (ts ++ us) → branches n opener k₁ rest₁ = .ok (bs, k, rest)

theorem BranchesRead.nil : BranchesRead [] [] := by
  intro us k rest turns hk
  refine ⟨k, rest, turns, .inr hk, fun enough => ?_⟩
  obtain ⟨n, rfl⟩ := enough.steps
  have helif : k.text ≠ "elif" := by rcases hk with hk | hk <;> simp [hk]
  rw [branches, if_neg helif]

/-- A word that a body of a choice stops at. -/
theorem stops_choice {s : String} (h : s = "elif" ∨ s = "else" ∨ s = "end") :
    s ∈ ["elif", "else"] ∨ s ∈ endKeywords := by
  rcases h with rfl | rfl | rfl <;> simp [endKeywords]

theorem BranchesRead.cons {hs vs : List Token} {bs : List (Branch Atom)} {test : Expr Atom}
    (h : Heads hs opener vs close) (hkeyword : opener.text = "elif")
    (d : Derives vs (.expression test)) (hns : BodyRead ts ns) (hbs : BranchesRead us bs) :
    BranchesRead (hs ++ ts ++ us) (.mk test ns :: bs) := by
  intro tail k rest turns hk
  obtain ⟨k₂, rest₂, turns₂, hk₂, reads⟩ := hbs turns hk
  have hturn := h.turns (ts ++ (us ++ tail))
  refine ⟨opener, vs ++ close :: (ts ++ (us ++ tail)), by simpa using hturn, .inl hkeyword, ?_⟩
  intro n first enough
  obtain ⟨n, rfl⟩ := enough.steps
  have enough' : Enough (n + 1) (vs ++ close :: (ts ++ (us ++ tail))) := by
    rw [List.append_assoc, List.append_assoc] at enough
    exact (enough.behind hturn.lt).succ
  have hx : expression (n + 1) (vs ++ close :: (ts ++ (us ++ tail)))
      = .ok (test, close :: (ts ++ (us ++ tail))) :=
    d.read enough' (ends_of_blockEnd h.close)
  have hb : body (n + 1) ["elif", "else"] (ts ++ (us ++ tail)) = .ok ⟨ns, some k₂, rest₂⟩ :=
    hns.turn turns₂ (by decide) (stops_choice hk₂) (enough'.mono (by simp +arith))
  have hr : branches (n + 1) first k₂ rest₂ = .ok (bs, k, rest) :=
    reads (enough'.mono (by simp +arith))
  rw [branches, if_pos hkeyword, hx]
  simp [expect_of_kind h.close, hb, hr, bind, Except.bind, BodyReading.closedBy]

/-! ### Blocks -/

/-- A block is read as a node. -/
theorem BodyRead.of_block {hs vs : List Token} (h : Heads hs k vs close)
    (go : k.text ∉ continuationKeywords ++ endKeywords)
    (read : ∀ {n rest}, Enough n (k :: (vs ++ close :: (ts ++ rest))) →
      block (n + 1) k (vs ++ close :: (ts ++ rest)) = .ok (node, rest)) :
    BodyRead (hs ++ ts) [node] := by
  intro n stops rest hstops enough
  obtain ⟨opening, heq, hopen, hk⟩ := h.turns (ts ++ rest)
  obtain ⟨n, rfl⟩ := enough.steps
  rw [List.append_assoc, heq] at enough ⊢
  refine ⟨n + 1, (enough.behind (by simp +arith)).succ, ?_⟩
  rw [List.mem_append, not_or] at go
  have hgo : ¬ (k.text ∈ stops ∨ k.text ∈ endKeywords) :=
    not_or.mpr ⟨fun hmem => go.1 (hstops hmem), go.2⟩
  rw [body_block hopen hk hgo go.1 (read (enough.behind (Nat.lt_succ_self _)))]

/-- The last body of a block, in the midst of what is read around it. -/
theorem bind_lastBody {α : Type} {keyword : String} (n : Nat) (terminator : Token)
    (act : List (Node Atom) × Token × List Token → Except Refusal α) :
    (if terminator.text = keyword then
        (expect .blockEnd ts).bind fun r =>
          (body n [] r.2).bind fun b => (b.closedBy opener).bind act
      else act ([], terminator, ts))
      = (lastBody n opener keyword terminator ts).bind act := by
  rw [lastBody]
  split
  · show _ = ((expect .blockEnd ts).bind fun r =>
      (body n [] r.2).bind fun b => b.closedBy opener).bind act
    rcases expect .blockEnd ts with f | r
    · rfl
    · rcases h : body n [] r.2 with f | b <;> simp [Except.bind, h]
  · rfl

theorem block_choice (h : opener.text = "if") : block (n + 1) opener ts = (do
    let (test, ts) ← expression n ts
    let (_, ts) ← expect .blockEnd ts
    let b ← body n ["elif", "else"] ts
    let (nodes, terminator, ts) ← b.closedBy opener
    let (others, terminator, ts) ← branches n opener terminator ts
    let (otherwise, terminator, ts) ← lastBody n opener "else" terminator ts
    let ts ← finishBlock terminator ts
    .ok (.choice opener.position test nodes others otherwise, ts)) := by
  rw [block, if_neg (by simp [h]), if_pos h]
  refine bind_congr fun ⟨test, ts⟩ => bind_congr fun ⟨_, ts⟩ => bind_congr fun b =>
    bind_congr fun ⟨nodes, terminator, ts⟩ => bind_congr fun ⟨others, terminator, ts⟩ => ?_
  exact bind_lastBody n terminator _

theorem block_loop (h : opener.text = "for") : block (n + 1) opener ts = (do
    let (target, ts) ← expect .name ts
    let (_, ts) ← expectWord "in" ts
    let (items, ts) ← expression n ts
    let (_, ts) ← expect .blockEnd ts
    let b ← body n ["empty"] ts
    let (nodes, terminator, ts) ← b.closedBy opener
    let (empty, terminator, ts) ← lastBody n opener "empty" terminator ts
    let ts ← finishBlock terminator ts
    .ok (.loop opener.position target.text items nodes empty, ts)) := by
  rw [block, if_pos h]
  refine bind_congr fun ⟨target, ts⟩ => bind_congr fun ⟨_, ts⟩ => bind_congr fun ⟨items, ts⟩ =>
    bind_congr fun ⟨_, ts⟩ => bind_congr fun b => bind_congr fun ⟨nodes, terminator, ts⟩ => ?_
  exact bind_lastBody n terminator _

/-! ### Nodes -/

theorem BodyRead.data (h : t.kind = .data) : BodyRead [t] [.data t.position t.text] := by
  intro n stops rest _ enough
  obtain ⟨n, rfl⟩ := enough.steps
  exact ⟨n + 1, (enough.behind (Nat.lt_succ_self _)).succ, body_data h⟩

theorem BodyRead.output (hopen : opening.kind = .variableBegin) (d : Derives us (.expression value))
    (hclose : close.kind = .variableEnd) :
    BodyRead (opening :: (us ++ [close])) [.output opening.position value] := by
  intro n stops rest _ enough
  obtain ⟨n, rfl⟩ := enough.steps
  have hx : expression (n + 1) (us ++ close :: rest) = .ok (value, close :: rest) :=
    d.read (enough.behind (by simp +arith)).succ
      ⟨by simp [hclose], by simp [hclose], by simp [hclose]⟩
  refine ⟨n + 1, (enough.behind (by simp +arith)).succ, ?_⟩
  simpa using body_output hopen hx hclose

theorem BodyRead.assign {hs vs : List Token} {target mark : Token}
    (h : Heads hs k (target :: mark :: vs) close) (hk : k.text = "set")
    (htarget : target.kind = .name) (hmark : mark.kind = .assign)
    (d : Derives vs (.expression value)) :
    BodyRead hs [.assign k.position target.text value] := by
  rw [← List.append_nil hs]
  refine BodyRead.of_block h (by rw [hk]; decide) fun {n rest} enough => ?_
  have hx : expression n (vs ++ close :: rest) = .ok (value, close :: rest) :=
    d.read (enough.mono (by simp +arith)) (ends_of_blockEnd h.close)
  rw [block, if_neg (by simp [hk]), if_neg (by simp [hk]), if_neg (by simp [hk]), if_pos hk]
  simp [expect_of_kind htarget, expect_of_kind hmark, hx, expect_of_kind h.close, bind, Except.bind]

theorem BodyRead.call {hs vs : List Token} {parts : CallParts} (h : Heads hs k vs close)
    (hk : k.text ∉ reservedNames)
    (reads : ∀ {n rest}, Enough n (vs ++ close :: rest) →
      callParts k.text (n + 1) false (vs ++ close :: rest) = .ok (parts, close :: rest)) :
    BodyRead hs [.call k.position k.text parts.args parts.named parts.target] := by
  rw [← List.append_nil hs]
  simp only [reservedNames, List.mem_append, List.mem_cons, List.not_mem_nil, or_false,
    not_or] at hk
  obtain ⟨⟨⟨hfor, hif, hwith, hset⟩, hgo⟩, hend⟩ := hk
  refine BodyRead.of_block h (by simp [hgo, hend]) fun {n rest} enough => ?_
  obtain ⟨n, rfl⟩ := enough.steps
  have hparts : callParts k.text (n + 2) false (vs ++ close :: rest) = .ok (parts, close :: rest) :=
    reads (enough.behind (Nat.lt_succ_self _)).succ
  rw [block, if_neg hfor, if_neg hif, if_neg hwith, if_neg hset]
  simp [hparts, expect_of_kind h.close, bind, Except.bind]

theorem BodyRead.scope {hs vs es : List Token} {ended last : Token}
    {bound : List (String × Expr Atom)} (h : Heads hs k vs close) (hk : k.text = "with")
    (hbound : bound ≠ [])
    (reads : ∀ {n rest}, Enough n (vs ++ close :: rest) →
      bindings n (vs ++ close :: rest) = .ok (bound, close :: rest))
    (hns : BodyRead ts ns) (hes : Heads es ended [] last) (hend : ended.text = "end") :
    BodyRead (hs ++ (ts ++ es)) [.scope k.position bound ns] := by
  refine BodyRead.of_block h (by rw [hk]; decide) fun {n rest} enough => ?_
  simp only [List.append_assoc] at enough ⊢
  have turns := hes.turns rest
  have hfinish := @finishBlock_end rest _ _ hend hes.close
  have hx : bindings n (vs ++ close :: (ts ++ (es ++ rest)))
      = .ok (bound, close :: (ts ++ (es ++ rest))) :=
    reads (enough.mono (Nat.le_succ _))
  have hb : body n [] (ts ++ (es ++ rest)) = .ok ⟨ns, some ended, last :: rest⟩ :=
    hns.turn turns (List.nil_subset _) (.inr (by simp [hend, endKeywords]))
      (enough.mono (by simp +arith))
  rw [block, if_neg (by simp [hk]), if_neg (by simp [hk]), if_pos hk]
  simp [hx, hbound, expect_of_kind h.close, hb, hfinish, bind, Except.bind, BodyReading.closedBy]

theorem BodyRead.choice {hs vs us ls es : List Token} {bs : List (Branch Atom)}
    {ended last : Token} (h : Heads hs k vs close) (hk : k.text = "if")
    (d : Derives vs (.expression value)) (hns : BodyRead ts ns) (hbs : BranchesRead us bs)
    (hms : LastRead "else" ls ms) (hes : Heads es ended [] last) (hend : ended.text = "end") :
    BodyRead (hs ++ (ts ++ (us ++ (ls ++ es)))) [.choice k.position value ns bs ms] := by
  refine BodyRead.of_block h (by rw [hk]; decide) fun {n rest} enough => ?_
  simp only [List.append_assoc] at enough ⊢
  have turns := hes.turns rest
  have hfinish := @finishBlock_end rest _ _ hend hes.close
  -- from the end to the front, because each part is read up to the turn behind it
  obtain ⟨k₁, rest₁, turns₁, hk₁, readsLast⟩ := hms turns hend
  obtain ⟨k₂, rest₂, turns₂, hk₂, readsBranches⟩ := hbs turns₁ hk₁
  have hx : expression n (vs ++ close :: (ts ++ (us ++ (ls ++ (es ++ rest)))))
      = .ok (value, close :: (ts ++ (us ++ (ls ++ (es ++ rest))))) :=
    d.read (enough.mono (by simp +arith)) (ends_of_blockEnd h.close)
  have hb : body n ["elif", "else"] (ts ++ (us ++ (ls ++ (es ++ rest))))
      = .ok ⟨ns, some k₂, rest₂⟩ :=
    hns.turn turns₂ (by decide) (stops_choice hk₂) (enough.mono (by simp +arith))
  have hr : branches n k k₂ rest₂ = .ok (bs, k₁, rest₁) :=
    readsBranches (enough.mono (by simp +arith))
  have hl : lastBody n k "else" k₁ rest₁ = .ok (ms, ended, last :: rest) :=
    readsLast (enough.mono (by simp +arith))
  rw [block_choice hk]
  simp [hx, expect_of_kind h.close, hb, hr, hl, hfinish, bind, Except.bind, BodyReading.closedBy]

theorem BodyRead.loop {hs vs ls es : List Token} {target word ended last : Token}
    (h : Heads hs k (target :: word :: vs) close) (hk : k.text = "for")
    (htarget : target.kind = .name) (hword : word.IsWord "in")
    (d : Derives vs (.expression value)) (hns : BodyRead ts ns)
    (hms : LastRead "empty" ls ms) (hes : Heads es ended [] last) (hend : ended.text = "end") :
    BodyRead (hs ++ (ts ++ (ls ++ es))) [.loop k.position target.text value ns ms] := by
  refine BodyRead.of_block h (by rw [hk]; decide) fun {n rest} enough => ?_
  simp only [List.append_assoc] at enough ⊢
  have turns := hes.turns rest
  have hfinish := @finishBlock_end rest _ _ hend hes.close
  obtain ⟨k₁, rest₁, turns₁, hk₁, readsLast⟩ := hms turns hend
  have hx : expression n (vs ++ close :: (ts ++ (ls ++ (es ++ rest))))
      = .ok (value, close :: (ts ++ (ls ++ (es ++ rest)))) :=
    d.read (enough.mono (by simp +arith)) (ends_of_blockEnd h.close)
  have hb : body n ["empty"] (ts ++ (ls ++ (es ++ rest))) = .ok ⟨ns, some k₁, rest₁⟩ :=
    hns.turn turns₁ (by decide) (by rcases hk₁ with hk₁ | hk₁ <;> simp [hk₁, endKeywords])
      (enough.mono (by simp +arith))
  have hl : lastBody n k "empty" k₁ rest₁ = .ok (ms, ended, last :: rest) :=
    readsLast (enough.mono (by simp +arith))
  have hin : expectWord "in" (word :: (vs ++ close :: (ts ++ (ls ++ (es ++ rest)))))
      = .ok (word, vs ++ close :: (ts ++ (ls ++ (es ++ rest)))) := by
    exact if_pos hword
  rw [block_loop hk, List.cons_append, List.cons_append]
  simp [expect_of_kind htarget, hin, hx, expect_of_kind h.close, hb, hl, hfinish, bind, Except.bind,
    BodyReading.closedBy]

/-! ### What is printed is read -/

section

variable {w : Numerals} {hs : List Token}

/-- The last body of a block is read from its printed form. -/
theorem LastRead.of_printed {keyword : String} {printed : List Lexeme}
    (hkeyword : keyword ≠ "end")
    (hts : ts.map Token.lexeme = lastPrinted keyword printed ms.isEmpty)
    (ih : ∀ us : List Token, us.map Token.lexeme = printed →
      ∃ ms', BodyRead us ms' ∧ Node.allPlaceless ms' = Node.allPlaceless ms) :
    ∃ ms', LastRead keyword ts ms' ∧ Node.allPlaceless ms' = Node.allPlaceless ms := by
  rw [lastPrinted] at hts
  split at hts
  · next hempty =>
    obtain rfl := List.map_eq_nil_iff.mp hts
    obtain rfl := List.isEmpty_iff.mp hempty
    exact ⟨[], LastRead.nil hkeyword, rfl⟩
  · obtain ⟨ks, us, rfl, hks, hus⟩ := List.map_eq_append_iff.mp hts
    obtain ⟨k, vs, close, heads, text, hvs⟩ := exists_heads hks
    obtain rfl := List.map_eq_nil_iff.mp hvs
    obtain ⟨ms', reads, same⟩ := ih us hus
    exact ⟨ms', LastRead.body heads text reads, same⟩

end

end Reader

section

open Reader

variable {w : Numerals}

mutual

/-- The printed form of a node is read as it, up to places. -/
theorem Node.read_printed : ∀ (node : Node Atom) (ts : List Token), node.WellFormed w →
    ts.map Token.lexeme = node.printed w →
    ∃ node', BodyRead ts [node'] ∧ node'.placeless = node.placeless
  | .data _ text, ts, _, hts => by
    obtain ⟨t, rfl, ht⟩ := List.map_eq_singleton_iff.mp hts
    obtain ⟨kind, rfl⟩ := Token.lexeme_eq_iff.mp ht
    exact ⟨_, BodyRead.data kind, rfl⟩
  | .output _ value, ts, h, hts => by
    obtain ⟨opening, us, close, rfl, hopen, hus, hclose⟩ := exists_region hts
    obtain ⟨value', s⟩ := Expr.derives_printed value us h hus
    exact ⟨_, BodyRead.output hopen s.expression hclose,
      by rw [Node.placeless, Node.placeless, s.same]⟩
  | .choice _ test body others otherwise, ts, h, hts => by
    obtain ⟨htest, hbody, hothers, hotherwise⟩ := h
    simp only [Node.printed, List.append_assoc] at hts
    obtain ⟨hs, _, rfl, hhs, hts⟩ := List.map_eq_append_iff.mp hts
    obtain ⟨bs, _, rfl, hbs, hts⟩ := List.map_eq_append_iff.mp hts
    obtain ⟨us, _, rfl, hus, hts⟩ := List.map_eq_append_iff.mp hts
    obtain ⟨ls, es, rfl, hls, hes⟩ := List.map_eq_append_iff.mp hts
    obtain ⟨k, vs, close, heads, hk, hvs⟩ := exists_heads hhs
    obtain ⟨ended, _, last, tail, hend, hnil⟩ := exists_heads hes
    obtain rfl := List.map_eq_nil_iff.mp hnil
    obtain ⟨test', s⟩ := Expr.derives_printed test vs htest hvs
    obtain ⟨ns, hns, same⟩ := Node.read_allPrinted body bs hbody hbs
    obtain ⟨os, hos, same'⟩ := Branch.read_allPrinted others us hothers hus
    obtain ⟨ms, hms, same''⟩ := LastRead.of_printed (by decide) hls
      fun us hus => Node.read_allPrinted otherwise us hotherwise hus
    exact ⟨_, BodyRead.choice heads hk s.expression hns hos hms tail hend,
      by rw [Node.placeless, Node.placeless, s.same, same, same', same'']⟩
  | .loop _ target items body empty, ts, h, hts => by
    obtain ⟨hitems, hbody, hempty⟩ := h
    simp only [Node.printed, List.append_assoc] at hts
    obtain ⟨hs, _, rfl, hhs, hts⟩ := List.map_eq_append_iff.mp hts
    obtain ⟨bs, _, rfl, hbs, hts⟩ := List.map_eq_append_iff.mp hts
    obtain ⟨ls, es, rfl, hls, hes⟩ := List.map_eq_append_iff.mp hts
    obtain ⟨k, vs, close, heads, hk, hvs⟩ := exists_heads hhs
    obtain ⟨name, _, rfl, hname, hvs⟩ := List.map_eq_cons_iff.mp hvs
    obtain ⟨word, vs, rfl, hword, hvs⟩ := List.map_eq_cons_iff.mp hvs
    obtain ⟨ended, _, last, tail, hend, hnil⟩ := exists_heads hes
    obtain rfl := List.map_eq_nil_iff.mp hnil
    obtain ⟨items', s⟩ := Expr.derives_printed items vs hitems hvs
    obtain ⟨kind, rfl⟩ := Token.lexeme_eq_iff.mp hname
    obtain ⟨ns, hns, same⟩ := Node.read_allPrinted body bs hbody hbs
    obtain ⟨ms, hms, same'⟩ := LastRead.of_printed (by decide) hls
      fun us hus => Node.read_allPrinted empty us hempty hus
    exact ⟨_, BodyRead.loop heads hk kind (Token.lexeme_eq_iff.mp hword) s.expression hns hms tail
        hend,
      by rw [Node.placeless, Node.placeless, s.same, same, same']⟩
  | .scope _ bound body, ts, h, hts => by
    obtain ⟨hne, hbound, hbody⟩ := h
    simp only [Node.printed, List.append_assoc] at hts
    obtain ⟨hs, _, rfl, hhs, hts⟩ := List.map_eq_append_iff.mp hts
    obtain ⟨bs, es, rfl, hbs, hes⟩ := List.map_eq_append_iff.mp hts
    obtain ⟨k, vs, close, heads, hk, hvs⟩ := exists_heads hhs
    obtain ⟨ended, _, last, tail, hend, hnil⟩ := exists_heads hes
    obtain rfl := List.map_eq_nil_iff.mp hnil
    obtain ⟨bound', same, reads⟩ := read_bindings bound hbound hvs
    obtain ⟨ns, hns, same'⟩ := Node.read_allPrinted body bs hbody hbs
    -- there are as many bindings as in the tree
    have hne' : bound' ≠ [] := by
      rintro rfl
      cases bound with
      | nil => exact hne rfl
      | cons b bound => simp [Expr.namedPlaceless] at same
    exact ⟨_, BodyRead.scope heads hk hne' (reads heads.close) hns tail hend,
      by rw [Node.placeless, Node.placeless, same, same']⟩
  | .assign _ target value, ts, h, hts => by
    obtain ⟨k, vs, close, heads, hk, hvs⟩ := exists_heads hts
    obtain ⟨name, _, rfl, hname, hvs⟩ := List.map_eq_cons_iff.mp hvs
    obtain ⟨mark, vs, rfl, hmark, hvs⟩ := List.map_eq_cons_iff.mp hvs
    obtain ⟨value', s⟩ := Expr.derives_printed value vs h hvs
    obtain ⟨kind, rfl⟩ := Token.lexeme_eq_iff.mp hname
    exact ⟨_, BodyRead.assign heads hk kind (congrArg Prod.fst hmark) s.expression,
      by rw [Node.placeless, Node.placeless, s.same]⟩
  | .call _ tag args named target, ts, h, hts => by
    obtain ⟨htag, hargs, hnamed⟩ := h
    obtain ⟨k, vs, close, heads, rfl, hvs⟩ := exists_heads hts
    obtain ⟨args', named', same, same', reads⟩ := read_callParts k.text args hargs hnamed hvs
    exact ⟨_, BodyRead.call heads htag (reads heads.close),
      by rw [Node.placeless, Node.placeless, same, same']⟩

/-- The printed form of nodes is read as them, up to places. -/
theorem Node.read_allPrinted : ∀ (ns : List (Node Atom)) (ts : List Token),
    Node.AllWellFormed w ns → ts.map Token.lexeme = Node.allPrinted w ns →
    ∃ ns', BodyRead ts ns' ∧ Node.allPlaceless ns' = Node.allPlaceless ns
  | [], ts, _, hts => by
    obtain rfl := List.map_eq_nil_iff.mp hts
    exact ⟨[], BodyRead.nil, rfl⟩
  | node :: ns, ts, h, hts => by
    obtain ⟨us, vs, rfl, hus, hvs⟩ := List.map_eq_append_iff.mp hts
    obtain ⟨node', reads, same⟩ := Node.read_printed node us h.1 hus
    obtain ⟨ns', reads', same'⟩ := Node.read_allPrinted ns vs h.2 hvs
    exact ⟨node' :: ns', reads.append reads',
      by rw [Node.allPlaceless, Node.allPlaceless, same, same']⟩

/-- The printed form of branches is read as them, up to places. -/
theorem Branch.read_allPrinted : ∀ (bs : List (Branch Atom)) (ts : List Token),
    Branch.AllWellFormed w bs → ts.map Token.lexeme = Branch.allPrinted w bs →
    ∃ bs', BranchesRead ts bs' ∧ Branch.allPlaceless bs' = Branch.allPlaceless bs
  | [], ts, _, hts => by
    obtain rfl := List.map_eq_nil_iff.mp hts
    exact ⟨[], BranchesRead.nil, rfl⟩
  | .mk test body :: bs, ts, h, hts => by
    obtain ⟨htest, hbody, hbs⟩ := h
    obtain ⟨us, vs, rfl, hus, hvs⟩ := List.map_eq_append_iff.mp hts
    obtain ⟨hs, us, rfl, hhs, hus⟩ := List.map_eq_append_iff.mp hus
    obtain ⟨k, ks, close, heads, hk, hks⟩ := exists_heads hhs
    obtain ⟨test', s⟩ := Expr.derives_printed test ks htest hks
    obtain ⟨ns', reads, same⟩ := Node.read_allPrinted body us hbody hus
    obtain ⟨bs', reads', same'⟩ := Branch.read_allPrinted bs vs hbs hvs
    exact ⟨.mk test' ns' :: bs', reads'.cons heads hk s.expression reads,
      by rw [Branch.allPlaceless, Branch.allPlaceless, s.same, same, same']⟩

end

end

end Stencil
