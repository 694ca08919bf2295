/-
Stencil/Proofs/Source/Piece.lean

The pieces a source is cut into.  Each scanner takes a front of the text that is left, and what it
takes has the shape of its piece: a comment up to the first closing mark, text without an opening
mark, a run of blanks, a word that is its own text, or a string between two marks.
-/
import Mathlib.Data.List.Infix
import Mathlib.Data.List.TakeWhile
import Stencil.Source.Lexer

namespace Stencil

/-! ### The shapes of pieces -/

/-- The text of a comment behind its opening mark: the closing mark stands at the end, and nowhere
before. -/
def ClosesFirst (run : List Char) : Prop :=
  ∃ body, run = body ++ ['#', '\x7d'] ∧ ∀ i < body.length, ¬ ['#', '\x7d'] <+: run.drop i

/-- The text has none of the marks that open something. -/
def Unopened (cs : List Char) : Prop :=
  ∀ c ∈ ['\x7b', '%', '#'], ¬ ['\x7b', c] <:+: cs

/-- The kinds of the tokens that a region holds. -/
def wordKinds : List TokenKind :=
  [.name, .string, .integer, .float, .dot, .comma, .pipe, .assign, .leftParen, .rightParen]

/-- What the body of a string says: each backslash and the character behind it are replaced by the
character that they stand for. -/
inductive Unescapes : (body text : List Char) → Prop where
  | nil : Unescapes [] []
  | plain {c body text} (other : c ≠ '\\') :
      Unescapes body text → Unescapes (c :: body) (c :: text)
  | feed {body text} : Unescapes body text → Unescapes ('\\' :: 'n' :: body) ('\n' :: text)
  | tab {body text} : Unescapes body text → Unescapes ('\\' :: 't' :: body) ('\t' :: text)
  | return {body text} : Unescapes body text → Unescapes ('\\' :: 'r' :: body) ('\r' :: text)
  | self {c body text} (other : c ∉ ['n', 't', 'r']) :
      Unescapes body text → Unescapes ('\\' :: c :: body) (c :: text)

/-- The raw text of a token in a region, and the text of the token. -/
inductive WordRun : TokenKind → (text raw : List Char) → Prop where
  | verbatim {kind text} (mem : kind ∈ wordKinds) (other : kind ≠ .string) (some : text ≠ []) :
      WordRun kind text text
  | quoted {mark body text} (isMark : mark = '\'' ∨ mark = '"') (value : Unescapes body text) :
      WordRun .string text (mark :: (body ++ [mark]))

variable {cs run rest raw text body : List Char} {c mark : Char} {kind : TokenKind} {n : Nat}

theorem WordRun.kind_mem (h : WordRun kind text raw) : kind ∈ wordKinds := by
  cases h with
  | verbatim mem => exact mem
  | quoted => decide

theorem WordRun.ne_nil (h : WordRun kind text raw) : raw ≠ [] := by
  cases h with
  | verbatim _ _ some => exact some
  | quoted => simp

/-! ### Comments -/

theorem ClosesFirst.cons (h : ClosesFirst run) (hc : ¬ ['#', '\x7d'] <+: c :: run) :
    ClosesFirst (c :: run) := by
  obtain ⟨body, rfl, first⟩ := h
  refine ⟨c :: body, rfl, fun i hi => ?_⟩
  cases i with
  | zero => exact hc
  | succ i => exact first i (by simpa using hi)

theorem commentRun?_eq_some (h : commentRun? cs = some run) :
    ∃ rest, cs = run ++ rest ∧ ClosesFirst run := by
  induction cs using commentRun?.induct generalizing run with
  | case1 => cases h
  | case2 rest =>
    obtain rfl : ['#', '\x7d'] = run := by simpa [commentRun?] using h
    exact ⟨rest, rfl, [], rfl, by simp⟩
  | case3 c rest hne ih =>
    rw [commentRun?] at h
    · obtain ⟨run, hrun, rfl⟩ := Option.map_eq_some_iff.mp h
      obtain ⟨rest, rfl, closes⟩ := ih hrun
      refine ⟨rest, rfl, closes.cons ?_⟩
      -- a closing mark here would have ended the comment
      rintro ⟨tail, htail⟩
      obtain ⟨rfl, rfl⟩ := List.cons.inj htail
      exact hne (tail ++ rest) rfl rfl
    · exact hne

/-! ### Plain text -/

theorem opening?_mark (h : c ∈ ['\x7b', '%', '#']) (rest : List Char) :
    (opening? ('\x7b' :: c :: rest)).isSome := by
  simp only [List.mem_cons, List.not_mem_nil, or_false] at h
  rcases h with rfl | rfl | rfl <;> rfl

/-- Where nothing opens, there is no opening mark. -/
theorem Unopened.of_opening? (h : ∀ i < run.length, opening? ((run ++ rest).drop i) = none) :
    Unopened run := by
  rintro c hc ⟨before, after, rfl⟩
  -- something would open where the mark begins
  have hnone := h before.length (by simp)
  have hsome := opening?_mark hc (after ++ rest)
  rw [List.append_assoc, List.append_assoc, List.drop_left] at hnone
  exact Option.isSome_iff_ne_none.mp hsome hnone

theorem plainRun_spec (cs : List Char) : ∃ rest, cs = plainRun cs ++ rest ∧
    (∀ i < (plainRun cs).length, opening? (cs.drop i) = none) ∧
    (rest = [] ∨ (opening? rest).isSome) := by
  induction cs with
  | nil => exact ⟨[], rfl, by simp [plainRun], .inl rfl⟩
  | cons c cs ih =>
    rw [plainRun]
    split
    · next h => exact ⟨c :: cs, rfl, by simp, .inr h⟩
    · next h =>
      obtain ⟨rest, hcs, hnone, hrest⟩ := ih
      refine ⟨rest, by rw [List.cons_append, ← hcs], fun i hi => ?_, hrest⟩
      cases i with
      | zero => simpa using h
      | succ i => exact hnone i (by simpa using hi)

/-! ### Strings -/

theorem Unescapes.escaped (h : Unescapes body text) :
    Unescapes ('\\' :: c :: body) (Stencil.escaped c :: text) := by
  by_cases hn : c = 'n'
  · subst hn
    exact h.feed
  by_cases ht : c = 't'
  · subst ht
    exact h.tab
  by_cases hr : c = 'r'
  · subst hr
    exact h.return
  have hself : Stencil.escaped c = c := by simp [Stencil.escaped, hn, ht, hr]
  rw [hself]
  exact h.self (by simp [hn, ht, hr])

theorem stringBody?_eq_some (h : stringBody? mark cs = some body) :
    ∃ rest, cs = body ++ mark :: rest ∧ Unescapes body (unescape body) := by
  induction cs using stringBody?.induct mark generalizing body with
  | case1 => cases h
  | case2 c rest ih =>
    rw [stringBody?] at h
    obtain ⟨body, hbody, rfl⟩ := Option.map_eq_some_iff.mp h
    obtain ⟨rest, rfl, value⟩ := ih hbody
    exact ⟨rest, rfl, by rw [unescape]; exact value.escaped⟩
  | case3 c rest hpair hmark =>
    rw [stringBody?, if_pos hmark] at h
    · obtain rfl : [] = body := by simpa using h
      exact ⟨rest, by rw [eq_of_beq hmark]; rfl, .nil⟩
    · exact hpair
  | case4 c rest hpair hmark hslash =>
    rw [stringBody?, if_neg hmark, if_pos hslash] at h
    · cases h
    · exact hpair
  | case5 c rest hpair hmark hslash ih =>
    rw [stringBody?, if_neg hmark, if_neg hslash] at h
    · obtain ⟨body, hbody, rfl⟩ := Option.map_eq_some_iff.mp h
      obtain ⟨rest, rfl, value⟩ := ih hbody
      have hne : c ≠ '\\' := by simpa using hslash
      refine ⟨rest, rfl, ?_⟩
      rw [unescape]
      · exact value.plain hne
      · intro d body' hc
        exact absurd hc hne
    · exact hpair

/-! ### Words -/

/-- A text and what is left behind a front of it. -/
theorem eq_append_drop_takeWhile (p : Char → Bool) (cs : List Char) :
    cs = cs.takeWhile p ++ cs.drop (cs.takeWhile p).length :=
  (List.prefix_iff_eq_append.mp (List.takeWhile_prefix p)).symm

/-- A number is taken from the front. -/
theorem numberRun?_eq_some (h : numberRun? cs = some (kind, text)) :
    (∃ rest, cs = text ++ rest) ∧ text ≠ [] ∧ (kind = .integer ∨ kind = .float) := by
  simp only [numberRun?] at h
  generalize hsign : cs.take (if cs.head? = some '-' then 1 else 0) = sign at h
  have hcs : cs = sign ++ cs.drop sign.length := by
    rw [← hsign]
    exact (List.prefix_iff_eq_append.mp (List.take_prefix ..)).symm
  generalize cs.drop sign.length = body at h hcs
  have hbody := eq_append_drop_takeWhile Text.isDecimal body
  generalize body.takeWhile Text.isDecimal = whole at h hbody
  split at h
  · cases h
  next hne =>
  -- a dot with digits behind it belongs to the number, any other dot does not
  split at h
  · next after hafter =>
    split at h
    · cases h
      exact ⟨⟨_, by rw [List.append_assoc, ← hbody]; exact hcs⟩,
        List.append_ne_nil_of_right_ne_nil _ (by simpa using hne), .inl rfl⟩
    · cases h
      have hrest := eq_append_drop_takeWhile Text.isDecimal after
      refine ⟨⟨after.drop (after.takeWhile Text.isDecimal).length, ?_⟩, by simp, .inr rfl⟩
      simp only [List.append_assoc, List.cons_append]
      rw [← hrest, ← hafter, ← hbody]
      exact hcs
  · cases h
    exact ⟨⟨_, by rw [List.append_assoc, ← hbody]; exact hcs⟩,
        List.append_ne_nil_of_right_ne_nil _ (by simpa using hne), .inl rfl⟩

/-- A string is taken from the front, with both marks. -/
theorem stringRun?_eq_some (h : stringRun? cs = some (text, n)) :
    ∃ raw rest, cs = raw ++ rest ∧ raw.length = n ∧ WordRun .string text raw := by
  cases cs with
  | nil => cases h
  | cons mark cs =>
    rw [stringRun?] at h
    split at h
    · next hmark =>
      obtain ⟨body, hbody, heq⟩ := Option.map_eq_some_iff.mp h
      obtain ⟨rfl, rfl⟩ := Prod.mk.inj heq
      obtain ⟨rest, rfl, value⟩ := stringBody?_eq_some hbody
      exact ⟨mark :: (body ++ [mark]), rest, by simp, by simp, .quoted (by simpa using hmark) value⟩
    · cases h

theorem punctuation?_mem (h : punctuation? c = some kind) : kind ∈ wordKinds ∧ kind ≠ .string := by
  unfold punctuation? at h
  repeat' split at h
  all_goals cases h
  all_goals decide

/-- Blanks are taken from the front, at least one. -/
theorem piece?_blank (h : piece? cs = some (.blank, n)) :
    ∃ run rest, cs = run ++ rest ∧ run.length = n ∧ run ≠ [] ∧
      ∀ c ∈ run, Text.isBlank c = true := by
  cases cs with
  | nil => cases h
  | cons c cs =>
    simp only [piece?] at h
    split at h
    · next hblank =>
      cases h
      refine ⟨_, _, eq_append_drop_takeWhile Text.isBlank (c :: cs), rfl, ?_,
        fun d hd => List.mem_takeWhile_imp hd⟩
      rw [List.takeWhile_cons_of_pos hblank]
      exact List.cons_ne_nil _ _
    · repeat' split at h
      all_goals simp at h

/-- A word is taken from the front: a number, a name, a string or a punctuation mark, whichever of
these it is first. -/
theorem piece?_token (h : piece? cs = some (.token kind text, n)) :
    ∃ raw rest, cs = raw ++ rest ∧ raw.length = n ∧ WordRun kind text raw := by
  cases cs with
  | nil => cases h
  | cons c cs =>
    simp only [piece?] at h
    split at h
    · cases h
    split at h
    · next hnumber =>
      cases h
      obtain ⟨⟨rest, hrest⟩, hne, hkind⟩ := numberRun?_eq_some hnumber
      refine ⟨text, rest, hrest, rfl, ?_⟩
      rcases hkind with rfl | rfl <;> exact .verbatim (by decide) (by decide) hne
    split at h
    · next hstart =>
      cases h
      have hpart : isNamePart c = true := by
        simp only [isNameStart, Bool.or_eq_true] at hstart
        simp only [isNamePart, Char.isAlphanum, Bool.or_eq_true]
        exact hstart.imp_left .inl
      refine ⟨_, _, eq_append_drop_takeWhile isNamePart (c :: cs), rfl,
        .verbatim (by decide) (by decide) ?_⟩
      rw [List.takeWhile_cons_of_pos hpart]
      exact List.cons_ne_nil _ _
    split at h
    · next hstring =>
      cases h
      exact stringRun?_eq_some hstring
    · obtain ⟨kind, hkind, heq⟩ := Option.map_eq_some_iff.mp h
      cases heq
      obtain ⟨hmem, hne⟩ := punctuation?_mem hkind
      exact ⟨[c], cs, rfl, rfl, .verbatim hmem hne (List.cons_ne_nil _ _)⟩

end Stencil
