/-
Stencil/Proofs/Source/Written.lean

Writing tokens so that they are read back.  A source is written as segments, one after the other:
plain text, and regions that hold words with blanks around them.  A string is written between marks,
with a backslash in front of each mark and each backslash in it, and so may hold anything, closing
marks of regions too; other words are written as they are.

What decides which piece is read is its first character, and a blank ends each word that has no end
of its own.
-/
import Stencil.Proofs.Source.Walk
import Stencil.Proofs.Tree.Printed

namespace Stencil

/-! ### Words -/

/-- The marks that a string may stand between. -/
def quoteMarks : List Char := ['\'', '"']

/-- A text with a backslash in front of each backslash and each mark. -/
def escape (mark : Char) (cs : List Char) : List Char :=
  cs.flatMap fun c => if c = '\\' ∨ c = mark then ['\\', c] else [c]

/-- The punctuation marks. -/
def punctuationMarks : List (TokenKind × Char) :=
  [(.dot, '.'), (.comma, ','), (.pipe, '|'), (.assign, '='), (.leftParen, '('), (.rightParen, ')')]

/-- The signs that a number may have. -/
def signs : List (List Char) := [[], ['-']]

/-- Digits, at least one. -/
def AreDigits (cs : List Char) : Prop := cs ≠ [] ∧ ∀ c ∈ cs, Text.isDecimal c = true

/-- The text of a word matches the pattern of its kind. -/
inductive IsWord : TokenKind → List Char → Prop where
  | name {c cs} (start : isNameStart c = true) (parts : ∀ d ∈ cs, isNamePart d = true) :
      IsWord .name (c :: cs)
  | integer {sign whole} (isSign : sign ∈ signs) (digits : AreDigits whole) :
      IsWord .integer (sign ++ whole)
  | float {sign whole fraction} (isSign : sign ∈ signs) (digits : AreDigits whole)
      (digits' : AreDigits fraction) : IsWord .float (sign ++ (whole ++ '.' :: fraction))
  | punctuation {kind c} (mem : (kind, c) ∈ punctuationMarks) : IsWord kind [c]
  | string (text) : IsWord .string text

/-- A word as it is written; a string stands between two marks. -/
def Lexeme.raw (mark : Char) (w : Lexeme) : List Char :=
  if w.1 = .string then mark :: (escape mark w.2.toList ++ [mark]) else w.2.toList

/-- All are blank. -/
def AreBlank (cs : List Char) : Prop := ∀ c ∈ cs, Text.isBlank c = true

/-- The words of a region as they are written, with blanks in front of each and a blank behind
each. -/
inductive WordsWritten : List Lexeme → List Char → Prop where
  | nil {gap} (blank : AreBlank gap) : WordsWritten [] gap
  | cons {gap mark w ws c rest} (blank : AreBlank gap) (isMark : mark ∈ quoteMarks)
      (next : Text.isBlank c = true) (others : WordsWritten ws (c :: rest)) :
      WordsWritten (w :: ws) (gap ++ (Lexeme.raw mark w ++ c :: rest))

/-! ### Segments -/

/-- A part of a source: plain text, or a region and the words that it holds. -/
inductive Segment where
  | data (text : String)
  | region (r : Region) (words : List Lexeme)

/-- Segments that can be written: plain text is not empty, has no opening mark, is not next to plain
text and does not end in the first character of a mark where a region follows. -/
def Segment.AllWellFormed : List Segment → Prop
  | [] => True
  | .data text :: rest =>
    text ≠ "" ∧ Unopened text.toList ∧
      (rest = [] ∨ text.toList.getLast? ≠ some '\x7b' ∧ ∃ r ws more, rest = .region r ws :: more) ∧
      Segment.AllWellFormed rest
  | .region _ words :: rest => (∀ w ∈ words, IsWord w.1 w.2.toList) ∧ Segment.AllWellFormed rest

/-- Segments as they are written. -/
inductive Written : List Segment → List Char → Prop where
  | nil : Written [] []
  | data {text rest cs} (others : Written rest cs) :
      Written (.data text :: rest) (text.toList ++ cs)
  | region {r ws inner rest cs} (words : WordsWritten ws inner) (others : Written rest cs) :
      Written (.region r ws :: rest) (r.openingMark ++ (inner ++ (r.closingMark ++ cs)))

/-- The tokens of segments. -/
def Segment.lexemes : List Segment → List Lexeme
  | [] => []
  | .data text :: rest => (.data, text) :: Segment.lexemes rest
  | .region r words :: rest => r.around words ++ Segment.lexemes rest

/-- Words with one space in front of each and one behind the last. -/
def spaced (mark : Char) : List Lexeme → List Char
  | [] => [' ']
  | w :: ws => ' ' :: (Lexeme.raw mark w ++ spaced mark ws)

/-- Segments with one space around every token. -/
def Segment.write (mark : Char) : List Segment → List Char
  | [] => []
  | .data text :: rest => text.toList ++ Segment.write mark rest
  | .region r words :: rest =>
    r.openingMark ++ (spaced mark words ++ (r.closingMark ++ Segment.write mark rest))

variable {c mark : Char} {cs rest text run gap sign whole : List Char} {kind : TokenKind}

/-! ### Characters -/

theorem isDecimal_iff : Text.isDecimal c = true ↔
    ∃ z ∈ Text.digitZeros, z ≤ c.toNat ∧ c.toNat < z + 10 := by
  simp [Text.isDecimal, Text.digitValue?]

theorem isBlank_iff : Text.isBlank c = true ↔ ∃ r ∈ Text.blanks, r.1 ≤ c.toNat ∧ c.toNat ≤ r.2 :=
  Text.inRanges_iff

/-- No digit of any script is blank. -/
theorem not_isBlank_of_isDecimal (h : Text.isDecimal c = true) : Text.isBlank c = false := by
  obtain ⟨z, hz, hle, hlt⟩ := isDecimal_iff.mp h
  have hapart : ∀ z ∈ Text.digitZeros, ∀ r ∈ Text.blanks, z + 10 ≤ r.1 ∨ r.2 < z := by decide
  rw [Bool.eq_false_iff]
  intro hblank
  obtain ⟨r, hr, hle', hle''⟩ := isBlank_iff.mp hblank
  have := hapart z hz r hr
  omega

/-- A character that a name may start with, by its number. -/
theorem isNameStart_iff : isNameStart c = true ↔
    65 ≤ c.toNat ∧ c.toNat ≤ 90 ∨ 97 ≤ c.toNat ∧ c.toNat ≤ 122 ∨ c.toNat = 95 := by
  have hunderscore : c = '_' ↔ c.toNat = 95 := by
    rw [← Char.toNat_inj]
    rfl
  have hranges : isNameStart c = ((decide (65 ≤ c.val ∧ c.val ≤ 90) ||
      decide (97 ≤ c.val) && decide (c.val ≤ 122)) || c == '_') := rfl
  rw [hranges]
  simp only [Bool.or_eq_true, Bool.and_eq_true, decide_eq_true_eq, beq_iff_eq, hunderscore,
    UInt32.le_iff_toNat_le]
  show (65 ≤ c.toNat ∧ c.toNat ≤ 90 ∨ 97 ≤ c.toNat ∧ c.toNat ≤ 122) ∨ c.toNat = 95 ↔ _
  rw [or_assoc]

/-- A character that a name may have, by its number. -/
theorem isNamePart_iff : isNamePart c = true ↔
    isNameStart c = true ∨ 48 ≤ c.toNat ∧ c.toNat ≤ 57 := by
  have hranges : isNamePart c =
      ((c.isAlpha || decide (48 ≤ c.val) && decide (c.val ≤ 57)) || c == '_') := rfl
  rw [hranges]
  simp only [isNameStart, Bool.or_eq_true, Bool.and_eq_true, decide_eq_true_eq,
    UInt32.le_iff_toNat_le]
  exact or_right_comm

/-- No character of a name is blank. -/
theorem not_isBlank_of_isNamePart (h : isNamePart c = true) : Text.isBlank c = false := by
  rw [Bool.eq_false_iff]
  intro hblank
  obtain ⟨r, hr, hle, hle'⟩ := isBlank_iff.mp hblank
  have hapart : ∀ r ∈ Text.blanks, r.2 ≤ 32 ∨ 123 ≤ r.1 := by decide
  have := hapart r hr
  rw [isNamePart_iff, isNameStart_iff] at h
  omega

/-- No character that starts a name is a digit of any script. -/
theorem not_isDecimal_of_isNameStart (h : isNameStart c = true) : Text.isDecimal c = false := by
  rw [Bool.eq_false_iff]
  intro hdecimal
  obtain ⟨z, hz, hle, hlt⟩ := isDecimal_iff.mp hdecimal
  have hapart : ∀ z ∈ Text.digitZeros, z = 48 ∨ 123 ≤ z := by decide
  have := hapart z hz
  rw [isNameStart_iff] at h
  omega

/-! ### Runs -/

/-- A run ends where its property does. -/
theorem takeWhile_append_cons {p : Char → Bool} (h : ∀ d ∈ run, p d = true) (hc : p c = false) :
    (run ++ c :: rest).takeWhile p = run := by
  rw [List.takeWhile_append_of_pos h, List.takeWhile_cons_of_neg (by simp [hc]), List.append_nil]

/-- A character that begins a word: it is not blank and does not begin a closing mark. -/
structure BeginsWord (c : Char) : Prop where
  notBlank : Text.isBlank c = false
  notClose : c ≠ '\x7d' ∧ c ≠ '%'

theorem beginsWord_of_isDecimal (h : Text.isDecimal c = true) : BeginsWord c := by
  refine ⟨not_isBlank_of_isDecimal h, ?_, ?_⟩ <;>
    · rintro rfl
      exact absurd h (by decide)

theorem beginsWord_of_isNameStart (h : isNameStart c = true) : BeginsWord c := by
  refine ⟨not_isBlank_of_isNamePart (isNamePart_iff.mpr (.inl h)), ?_, ?_⟩ <;>
    · rintro rfl
      exact absurd h (by decide)

/-! ### Numbers -/

theorem numberRun?_eq_none (hminus : c ≠ '-') (hdecimal : Text.isDecimal c = false) :
    numberRun? (c :: rest) = none := by
  simp [numberRun?, hminus, hdecimal]

/-- A sign is taken off. -/
theorem take_sign (isSign : sign ∈ signs) (digits : AreDigits whole) :
    (sign ++ (whole ++ rest)).take
      (if (sign ++ (whole ++ rest)).head? = some '-' then 1 else 0) = sign := by
  obtain ⟨d, ds, rfl⟩ := List.exists_cons_of_ne_nil digits.1
  have hd : d ≠ '-' := by
    rintro rfl
    exact absurd (digits.2 '-' List.mem_cons_self) (by decide)
  simp only [signs, List.mem_cons, List.not_mem_nil, or_false] at isSign
  rcases isSign with rfl | rfl <;> simp [hd]

theorem numberRun?_integer (isSign : sign ∈ signs) (digits : AreDigits whole)
    (hdecimal : Text.isDecimal c = false)
    (hdot : c = '.' → ∀ d ∈ rest.head?, Text.isDecimal d = false) :
    numberRun? (sign ++ (whole ++ c :: rest)) = some (.integer, sign ++ whole) := by
  have hwhole := @takeWhile_append_cons c rest whole Text.isDecimal digits.2 hdecimal
  simp only [numberRun?, take_sign isSign digits, List.drop_left, hwhole]
  rw [if_neg (by simp [digits.1])]
  split
  · next heq =>
    -- no digit follows the dot, so it does not belong to the number
    obtain ⟨rfl, rfl⟩ := List.cons.inj heq
    rw [if_pos]
    cases rest with
    | nil => rfl
    | cons d ds => simp [hdot rfl d rfl]
  · rfl

theorem numberRun?_float {fraction : List Char} (isSign : sign ∈ signs) (digits : AreDigits whole)
    (digits' : AreDigits fraction) (hdecimal : Text.isDecimal c = false) :
    numberRun? (sign ++ (whole ++ '.' :: (fraction ++ c :: rest)))
      = some (.float, sign ++ (whole ++ '.' :: fraction)) := by
  have hwhole := @takeWhile_append_cons '.' (fraction ++ c :: rest) whole Text.isDecimal digits.2
    (by decide)
  have hfraction := @takeWhile_append_cons c rest fraction Text.isDecimal digits'.2 hdecimal
  simp only [numberRun?, take_sign isSign digits, List.drop_left, hwhole, hfraction]
  rw [if_neg (by simp [digits.1]), if_neg (by simp [digits'.1]), List.append_assoc]

/-! ### Strings -/

theorem ne_slash_of_mem (h : mark ∈ quoteMarks) : mark ≠ '\\' := by
  rintro rfl
  exact absurd h (by decide)

/-- An escaped text is read up to the mark behind it. -/
theorem stringBody?_escape (hmark : mark ∈ quoteMarks) (text rest : List Char) :
    stringBody? mark (escape mark text ++ mark :: rest) = some (escape mark text) := by
  induction text with
  | nil =>
    rw [escape, List.flatMap_nil, List.nil_append, stringBody?]
    · simp
    · intro c rest' hslash
      exact absurd hslash (ne_slash_of_mem hmark)
  | cons c text ih =>
    rw [escape, List.flatMap_cons, ← escape]
    split
    · -- the backslash hides the character behind it
      simp [stringBody?, ih]
    · next hplain =>
      obtain ⟨hslash, hne⟩ := not_or.mp hplain
      rw [List.singleton_append, List.cons_append, stringBody?]
      · simp [hslash, hne, ih]
      · intro d rest' hc
        exact absurd hc hslash

/-- An escaped text stands for the text. -/
theorem unescape_escape (hmark : mark ∈ quoteMarks) (text : List Char) :
    unescape (escape mark text) = text := by
  induction text with
  | nil => rfl
  | cons c text ih =>
    rw [escape, List.flatMap_cons, ← escape]
    split
    · next hpair =>
      -- neither a backslash nor a mark is `n`, `t` or `r`
      have hself : escaped c = c := by
        rcases hpair with rfl | rfl
        · rfl
        · simp only [quoteMarks, List.mem_cons, List.not_mem_nil, or_false] at hmark
          rcases hmark with rfl | rfl <;> rfl
      simp [unescape, hself, ih]
    · next hplain =>
      rw [List.singleton_append, unescape, ih]
      intro d rest' hc
      exact absurd hc (not_or.mp hplain).1

/-! ### Words -/

theorem raw_of_ne (mark : Char) (h : kind ≠ .string) (cs : List Char) :
    Lexeme.raw mark (kind, String.ofList cs) = cs := by
  simp [Lexeme.raw, h]

theorem punctuation_spec {d : Char} (h : (kind, d) ∈ punctuationMarks) :
    kind ≠ .string ∧ BeginsWord d ∧ d ≠ '-' ∧ Text.isDecimal d = false ∧ isNameStart d = false ∧
      d ∉ quoteMarks ∧ punctuation? d = some kind := by
  have hall : ∀ p ∈ punctuationMarks, p.1 ≠ .string ∧ Text.isBlank p.2 = false ∧
      p.2 ≠ '\x7d' ∧ p.2 ≠ '%' ∧ p.2 ≠ '-' ∧ Text.isDecimal p.2 = false ∧
      isNameStart p.2 = false ∧ p.2 ∉ quoteMarks ∧ punctuation? p.2 = some p.1 := by decide
  obtain ⟨h₁, h₂, h₃, h₄, h₅⟩ := hall (kind, d) h
  exact ⟨h₁, ⟨h₂, h₃, h₄⟩, h₅⟩

theorem beginsWord_of_mem_quoteMarks (h : mark ∈ quoteMarks) : BeginsWord mark ∧ mark ≠ '-' ∧
    Text.isDecimal mark = false ∧ isNameStart mark = false := by
  rcases (by simpa [quoteMarks] using h : mark = '\'' ∨ mark = '"') with rfl | rfl <;>
    exact ⟨⟨by decide, by decide⟩, by decide⟩

/-- A number begins with a sign or a digit. -/
theorem exists_beginsWord_number (isSign : sign ∈ signs) (digits : AreDigits whole)
    (rest : List Char) : ∃ d ds, sign ++ (whole ++ rest) = d :: ds ∧ BeginsWord d := by
  obtain ⟨d, ds, rfl⟩ := List.exists_cons_of_ne_nil digits.1
  simp only [signs, List.mem_cons, List.not_mem_nil, or_false] at isSign
  rcases isSign with rfl | rfl
  · exact ⟨d, ds ++ rest, rfl, beginsWord_of_isDecimal (digits.2 d List.mem_cons_self)⟩
  · exact ⟨'-', d :: ds ++ rest, rfl, by decide, by decide, by decide⟩

/-- A word begins with a character that begins a word. -/
theorem exists_beginsWord {w : Lexeme} (h : IsWord w.1 w.2.toList) (hmark : mark ∈ quoteMarks) :
    ∃ d ds, w.raw mark = d :: ds ∧ BeginsWord d := by
  obtain ⟨kind, text⟩ := w
  rw [← String.ofList_toList (s := text)]
  simp only at h
  generalize text.toList = cs at h ⊢
  cases h with
  | @name d ds start parts =>
    exact ⟨d, ds, raw_of_ne mark (by decide) _, beginsWord_of_isNameStart start⟩
  | @integer sign whole isSign digits =>
    obtain ⟨d, ds, hcs, hd⟩ := exists_beginsWord_number isSign digits []
    rw [List.append_nil] at hcs
    exact ⟨d, ds, by rw [raw_of_ne mark (by decide), hcs], hd⟩
  | @float sign whole fraction isSign digits digits' =>
    obtain ⟨d, ds, hcs, hd⟩ := exists_beginsWord_number isSign digits ('.' :: fraction)
    exact ⟨d, ds, by rw [raw_of_ne mark (by decide), hcs], hd⟩
  | @punctuation _ d mem =>
    obtain ⟨hne, hd, -⟩ := punctuation_spec mem
    exact ⟨d, [], raw_of_ne mark hne _, hd⟩
  | string text =>
    exact ⟨mark, _, rfl, (beginsWord_of_mem_quoteMarks hmark).1⟩

theorem piece?_of_numberRun? {d : Char} {ds : List Char} (hd : BeginsWord d) (hcs : cs = d :: ds)
    (h : numberRun? cs = some (kind, text)) : piece? cs = some (.token kind text, text.length) := by
  subst hcs
  simp [piece?, hd.notBlank, h]

theorem stringRun?_eq_none (h : c ∉ quoteMarks) : stringRun? (c :: rest) = none := by
  have : ¬ (c = '\'' ∨ c = '"') := by simpa [quoteMarks] using h
  simp [stringRun?, this]

theorem IsWord.exists_start (h : IsWord .name cs) :
    ∃ d ds, cs = d :: ds ∧ isNameStart d = true ∧ ∀ d ∈ ds, isNamePart d = true := by
  cases h with
  | punctuation mem => simp [punctuationMarks] at mem
  | name start parts => exact ⟨_, _, rfl, start, parts⟩

/-- A name is read up to a character that no name has. -/
theorem piece?_name (h : IsWord .name cs) (hc : isNamePart c = false) :
    piece? (cs ++ c :: rest) = some (.token .name cs, cs.length) := by
  obtain ⟨d, ds, rfl, start, parts⟩ := h.exists_start
  have hminus : d ≠ '-' := by
    rintro rfl
    exact absurd start (by decide)
  have htake := @takeWhile_append_cons c rest (d :: ds) isNamePart
    (List.forall_mem_cons.mpr ⟨isNamePart_iff.mpr (.inl start), parts⟩) hc
  rw [List.cons_append] at htake ⊢
  simp [piece?, (beginsWord_of_isNameStart start).notBlank,
    numberRun?_eq_none hminus (not_isDecimal_of_isNameStart start), start, htake]

/-- A punctuation mark is read, whatever follows it. -/
theorem piece?_punctuation (mem : (kind, c) ∈ punctuationMarks) :
    piece? (c :: rest) = some (.token kind [c], 1) := by
  obtain ⟨-, hc, hminus, hdecimal, hstart, hquote, hkind⟩ := punctuation_spec mem
  simp [piece?, hc.notBlank, numberRun?_eq_none hminus hdecimal, hstart,
    stringRun?_eq_none hquote, hkind]

/-- A word is read as it was written, up to the blank behind it. -/
theorem piece?_raw {w : Lexeme} (h : IsWord w.1 w.2.toList) (hmark : mark ∈ quoteMarks)
    (hc : Text.isBlank c = true) :
    piece? (w.raw mark ++ c :: rest) = some (.token w.1 w.2.toList, (w.raw mark).length) := by
  -- a blank goes on with neither a name nor a number
  have hpart : isNamePart c = false := by
    rw [Bool.eq_false_iff]
    intro hpart
    simp [not_isBlank_of_isNamePart hpart] at hc
  have hdecimal : Text.isDecimal c = false := by
    rw [Bool.eq_false_iff]
    intro hdecimal
    simp [not_isBlank_of_isDecimal hdecimal] at hc
  have hdot : c ≠ '.' := by
    rintro rfl
    exact absurd hc (by decide)
  obtain ⟨kind, text⟩ := w
  rw [← String.ofList_toList (s := text)]
  simp only [String.toList_ofList] at h ⊢
  generalize text.toList = cs at h ⊢
  cases h with
  | @name d ds start parts =>
    rw [raw_of_ne mark (by decide)]
    exact piece?_name (.name start parts) hpart
  | @integer sign whole isSign digits =>
    obtain ⟨d, ds, hcs, hd⟩ := exists_beginsWord_number isSign digits (c :: rest)
    rw [raw_of_ne mark (by decide), List.append_assoc]
    exact piece?_of_numberRun? hd hcs
      (numberRun?_integer isSign digits hdecimal fun hc => absurd hc hdot)
  | @float sign whole fraction isSign digits digits' =>
    obtain ⟨d, ds, hcs, hd⟩ := exists_beginsWord_number isSign digits
      ('.' :: (fraction ++ c :: rest))
    rw [raw_of_ne mark (by decide), List.append_assoc, List.append_assoc, List.cons_append]
    exact piece?_of_numberRun? hd hcs (numberRun?_float isSign digits digits' hdecimal)
  | @punctuation _ d mem =>
    rw [raw_of_ne mark (punctuation_spec mem).1]
    exact piece?_punctuation mem
  | string =>
    obtain ⟨hd, hminus, hdecimal, hstart⟩ := beginsWord_of_mem_quoteMarks hmark
    have hrun : stringRun? (mark :: (escape mark cs ++ mark :: c :: rest))
        = some (cs, (escape mark cs).length + 2) := by
      have hquote : mark = '\'' ∨ mark = '"' := by simpa [quoteMarks] using hmark
      simp [stringRun?, hquote, stringBody?_escape hmark, unescape_escape hmark]
    simp [Lexeme.raw, piece?, hd.notBlank, numberRun?_eq_none hminus hdecimal, hstart, hrun]

/-! ### Regions -/

variable {r : Region} {opened place : Position} {d : Char} {ds : List Char}

theorem isPrefixOf_closingMark (hd : d ≠ '\x7d' ∧ d ≠ '%') :
    r.closingMark.isPrefixOf (d :: ds) = false := by
  rw [Bool.eq_false_iff, Ne, List.isPrefixOf_iff_prefix]
  rintro ⟨tail, htail⟩
  cases r
  · exact hd.1 (List.cons.inj htail).1.symm
  · exact hd.2 (List.cons.inj htail).1.symm

/-- Blanks are passed over, up to a character that is none. -/
theorem walk_gap (hgap : AreBlank gap) (hd : Text.isBlank d = false) :
    walk (.inside r opened) place 0 (gap ++ d :: ds)
      = walk (.inside r opened) (place.after gap) 0 (d :: ds) := by
  by_cases hne : gap = []
  · subst hne
    rfl
  have htake := @takeWhile_append_cons d ds gap Text.isBlank hgap hd
  have hstride : stride (.inside r opened) place (gap ++ d :: ds)
      = .ok ⟨none, .inside r opened, gap.length⟩ := by
    obtain ⟨c, cs, rfl⟩ := List.exists_cons_of_ne_nil hne
    have hc := hgap c List.mem_cons_self
    have hclose : c ≠ '\x7d' ∧ c ≠ '%' := by
      constructor <;>
        · rintro rfl
          exact absurd hc (by decide)
    rw [List.cons_append] at htake ⊢
    simp [stride, isPrefixOf_closingMark hclose, piece?, hc, htake]
  rw [walk_append hne hstride rfl]
  rcases walk (.inside r opened) (place.after gap) 0 (d :: ds) with f | tokens <;> rfl

/-- A piece that gives a token is read where the region does not close. -/
theorem walk_piece {raw : List Char} (hne : raw ≠ [])
    (hclose : r.closingMark.isPrefixOf (raw ++ rest) = false)
    (hpiece : piece? (raw ++ rest) = some (.token kind text, raw.length)) :
    walk (.inside r opened) place 0 (raw ++ rest)
      = (walk (.inside r opened) (place.after raw) 0 rest).map
          (⟨kind, String.ofList text, place⟩ :: ·) := by
  have hstride : stride (.inside r opened) place (raw ++ rest)
      = .ok ⟨some (kind, text), .inside r opened, raw.length⟩ := by
    simp [stride, hclose, hpiece]
  exact walk_append hne hstride rfl

/-- A word is read, up to the blank behind it. -/
theorem walk_word {w : Lexeme} (h : IsWord w.1 w.2.toList) (hmark : mark ∈ quoteMarks)
    (hc : Text.isBlank c = true) :
    walk (.inside r opened) place 0 (w.raw mark ++ c :: rest)
      = (walk (.inside r opened) (place.after (w.raw mark)) 0 (c :: rest)).map
          (⟨w.1, w.2, place⟩ :: ·) := by
  obtain ⟨d, ds, hraw, hd⟩ := exists_beginsWord h hmark
  have hclose : r.closingMark.isPrefixOf (w.raw mark ++ c :: rest) = false := by
    rw [hraw]
    exact isPrefixOf_closingMark hd.notClose
  have hwalk := @walk_piece (c :: rest) w.2.toList w.1 r opened place (w.raw mark)
    (by rw [hraw]; exact List.cons_ne_nil _ _) hclose (piece?_raw h hmark hc)
  rwa [String.ofList_toList] at hwalk

/-- A closing mark ends the region. -/
theorem walk_close :
    walk (.inside r opened) place 0 (r.closingMark ++ cs)
      = (walk .plain (place.after r.closingMark) 0 cs).map
          (⟨r.endKind, String.ofList r.closingMark, place⟩ :: ·) := by
  have hprefix : r.closingMark.isPrefixOf (r.closingMark ++ cs) = true :=
    List.isPrefixOf_iff_prefix.mpr (List.prefix_append _ _)
  have hstride : stride (.inside r opened) place (r.closingMark ++ cs)
      = .ok ⟨some (r.endKind, r.closingMark), .plain, 2⟩ := by
    simp [stride, hprefix]
  exact walk_append (by cases r <;> exact List.cons_ne_nil _ _) hstride (by cases r <;> rfl)

/-- The words of a region are read, and its closing mark. -/
theorem walk_words {ws : List Lexeme} {inner : List Char} (h : WordsWritten ws inner)
    (hws : ∀ w ∈ ws, IsWord w.1 w.2.toList) (place : Position) (cs : List Char) :
    ∃ ts place', ts.map Token.lexeme = ws ++ [(r.endKind, String.ofList r.closingMark)] ∧
      walk (.inside r opened) place 0 (inner ++ (r.closingMark ++ cs))
        = (walk .plain place' 0 cs).map (ts ++ ·) := by
  induction h generalizing place with
  | @nil gap blank =>
    obtain ⟨d, ds, hmark, hd⟩ : ∃ d ds, r.closingMark = d :: ds ∧ Text.isBlank d = false := by
      cases r <;> exact ⟨_, _, rfl, by decide⟩
    have hgap := @walk_gap gap r opened place d (ds ++ cs) blank hd
    rw [← List.cons_append, ← hmark, walk_close] at hgap
    exact ⟨[_], _, rfl, hgap⟩
  | @cons gap mark w ws c rest blank isMark next others ih =>
    have hw := hws w List.mem_cons_self
    obtain ⟨d, ds, hraw, hd⟩ := exists_beginsWord hw isMark
    obtain ⟨ts, place', hts, hwalk⟩ := ih (fun v hv => hws v (List.mem_cons_of_mem _ hv))
      ((place.after gap).after (w.raw mark))
    refine ⟨⟨w.1, w.2, place.after gap⟩ :: ts, place', by simp [hts, Token.lexeme], ?_⟩
    have hgap := @walk_gap gap r opened place d (ds ++ (c :: rest ++ (r.closingMark ++ cs))) blank
      hd.notBlank
    have hword := @walk_word c mark (rest ++ (r.closingMark ++ cs)) r opened (place.after gap) w hw
      isMark next
    simp only [List.append_assoc, List.cons_append, hraw] at hgap hword hwalk ⊢
    rw [hgap, hword, hwalk]
    rcases walk .plain place' 0 cs with f | tokens <;> rfl

/-! ### Segments -/

/-- Plain text is read up to the first opening mark. -/
theorem plainRun_append (h : ∀ i < run.length, opening? ((run ++ rest).drop i) = none)
    (hrest : rest = [] ∨ (opening? rest).isSome) : plainRun (run ++ rest) = run := by
  induction run with
  | nil =>
    rcases hrest with rfl | hsome
    · rfl
    · cases rest with
      | nil => rfl
      | cons c rest => rw [List.nil_append, plainRun, if_pos hsome]
  | cons c run ih =>
    have hc := h 0 (by simp)
    rw [List.cons_append] at hc ⊢
    rw [plainRun, if_neg (by simpa using hc), ih fun i hi => by simpa using h (i + 1) (by simpa)]

theorem exists_mark_of_opening? {o : Opening} (h : opening? cs = some o) :
    ∃ c ∈ ['\x7b', '%', '#'], ∃ rest, cs = '\x7b' :: c :: rest := by
  unfold opening? at h
  split at h <;> cases h <;> exact ⟨_, by decide, _, rfl⟩

/-- Nothing opens in a text without an opening mark, unless its last character is the first of
one. -/
theorem opening?_eq_none (h : Unopened run) (hlast : rest = [] ∨ run.getLast? ≠ some '\x7b')
    {i : Nat} (hi : i < run.length) : opening? ((run ++ rest).drop i) = none := by
  rw [List.drop_append_of_le_length (Nat.le_of_lt hi)]
  rcases ho : opening? (run.drop i ++ rest) with - | o
  · rfl
  obtain ⟨c, hc, tail, heq⟩ := exists_mark_of_opening? ho
  have hrun := List.take_append_drop i run
  rcases hdrop : run.drop i with - | ⟨d, ds⟩
  · simp at hdrop
    omega
  rw [hdrop] at heq hrun
  obtain ⟨rfl, htail⟩ := List.cons.inj heq
  cases ds with
  | nil =>
    -- the mark would begin in the text and end behind it
    rcases hlast with rfl | hlast
    · cases htail
    · exact absurd (by rw [← hrun]; simp) hlast
  | cons d ds =>
    obtain ⟨rfl, -⟩ := List.cons.inj htail
    exact absurd ⟨run.take i, ds, by simpa using hrun⟩ (h d hc)

theorem opening?_openingMark : opening? (r.openingMark ++ cs) = some (.region r) := by
  cases r <;> rfl

/-- An opening mark begins a region. -/
theorem walk_open :
    walk .plain place 0 (r.openingMark ++ cs)
      = (walk (.inside r place) (place.after r.openingMark) 0 cs).map
          (⟨r.beginKind, String.ofList r.openingMark, place⟩ :: ·) := by
  have hstride : stride .plain place (r.openingMark ++ cs)
      = .ok ⟨some (r.beginKind, r.openingMark), .inside r place, 2⟩ := by
    simp [stride, opening?_openingMark]
  exact walk_append (by cases r <;> exact List.cons_ne_nil _ _) hstride (by cases r <;> rfl)

/-- What is written is read, up to the end. -/
theorem walk_written {segments : List Segment} (h : Written segments cs)
    (hwf : Segment.AllWellFormed segments) (place : Position) :
    ∃ tokens, walk .plain place 0 cs = .ok tokens ∧
      tokens.map Token.lexeme = Segment.lexemes segments ++ [(.eof, "")] := by
  induction h generalizing place with
  | nil => exact ⟨[⟨.eof, "", place⟩], rfl, rfl⟩
  | @data text rest cs others ih =>
    obtain ⟨hne, unopened, hrest, hwf⟩ := hwf
    obtain ⟨tokens, hwalk, htokens⟩ := ih hwf (place.after text.toList)
    have hsome : text.toList ≠ [] := by simpa using hne
    -- behind the text the source ends, or a region opens
    have hopens : cs = [] ∨ (opening? cs).isSome := by
      rcases hrest with rfl | ⟨-, r, ws, more, rfl⟩
      · cases others
        exact .inl rfl
      · cases others
        exact .inr (by rw [opening?_openingMark]; rfl)
    have hlast : cs = [] ∨ text.toList.getLast? ≠ some '\x7b' := by
      rcases hrest with rfl | ⟨hlast, -⟩
      · cases others
        exact .inl rfl
      · exact .inr hlast
    have hnone := fun i hi => @opening?_eq_none cs text.toList unopened hlast i hi
    have hstride : stride .plain place (text.toList ++ cs)
        = .ok ⟨some (.data, text.toList), .plain, text.toList.length⟩ := by
      have hfirst := hnone 0 (List.length_pos_iff.mpr hsome)
      rw [List.drop_zero] at hfirst
      simp [stride, hfirst, plainRun_append hnone hopens]
    refine ⟨⟨.data, text, place⟩ :: tokens, ?_, by simp [htokens, Token.lexeme, Segment.lexemes]⟩
    rw [walk_append hsome hstride rfl, hwalk]
    simp [Except.map, emit]
  | @region r ws inner rest cs words others ih =>
    obtain ⟨hws, hwf⟩ := hwf
    obtain ⟨ts, place', hts, hwords⟩ := @walk_words r place ws inner words hws
      (place.after r.openingMark) cs
    obtain ⟨tokens, hwalk, htokens⟩ := ih hwf place'
    refine ⟨⟨r.beginKind, String.ofList r.openingMark, place⟩ :: (ts ++ tokens), ?_, ?_⟩
    · rw [walk_open, hwords, hwalk]
      rfl
    · simp [hts, htokens, Token.lexeme, Segment.lexemes, Region.around]

/-! ### Writing and reading -/

/-- With one space around every token, segments are written. -/
theorem written_write (hmark : mark ∈ quoteMarks) (segments : List Segment) :
    Written segments (Segment.write mark segments) := by
  have hblank : AreBlank [' '] := List.forall_mem_singleton.mpr (by decide)
  have hwords : ∀ ws : List Lexeme, WordsWritten ws (spaced mark ws) := by
    intro ws
    induction ws with
    | nil => exact .nil hblank
    | cons w ws ih =>
      obtain ⟨rest, hrest⟩ : ∃ rest, spaced mark ws = ' ' :: rest := by
        cases ws <;> exact ⟨_, rfl⟩
      rw [spaced, hrest]
      rw [hrest] at ih
      exact .cons hblank hmark (by decide) ih
  induction segments with
  | nil => exact .nil
  | cons segment segments ih =>
    cases segment with
    | data text => exact .data ih
    | region r words => exact .region (hwords words) ih

/-- Reading undoes writing: segments that can be written are read as their tokens, whatever blanks
stand around the tokens and between whichever marks each string stands; one space around every
token and one mark for all strings are such a way to write. -/
theorem lex_written (segments : List Segment) (h : Segment.AllWellFormed segments) :
    (∀ mark ∈ quoteMarks, Written segments (Segment.write mark segments)) ∧
    ∀ cs, Written segments cs → ∃ tokens, lex (String.ofList cs) = .ok tokens ∧
      tokens.map Token.lexeme = Segment.lexemes segments ++ [(.eof, "")] := by
  refine ⟨fun mark hmark => written_write hmark segments, fun cs hcs => ?_⟩
  rw [lex, String.toList_ofList]
  exact walk_written hcs h .start

/-- Plain text with a lone brace, a region with a string that holds marks of every kind, and plain
text that ends in a brace. -/
def marked : List Segment :=
  [.data "a\x7b b",
   .region .variableRegion
     [(.name, "x"), (.dot, "."), (.integer, "-1"), (.float, "2.5"),
      (.string, "\x7d\x7d\"\\ %\x7d\n")],
   .data "\x7b"]

theorem lex_written_marked : ∃ tokens, lex (String.ofList (Segment.write '"' marked)) = .ok tokens ∧
    tokens.map Token.lexeme =
      [(.data, "a\x7b b"), (.variableBegin, "\x7b\x7b"), (.name, "x"), (.dot, "."),
       (.integer, "-1"), (.float, "2.5"), (.string, "\x7d\x7d\"\\ %\x7d\n"),
       (.variableEnd, "\x7d\x7d"), (.data, "\x7b"), (.eof, "")] := by
  have hword : ∀ w ∈ [((.name, "x") : Lexeme), (.dot, "."), (.integer, "-1"), (.float, "2.5"),
      (.string, "\x7d\x7d\"\\ %\x7d\n")], IsWord w.1 w.2.toList := by
    have hdigit : ∀ d, Text.isDecimal d = true → AreDigits [d] := fun d hd =>
      ⟨List.cons_ne_nil _ _, List.forall_mem_singleton.mpr hd⟩
    simp only [List.forall_mem_cons, List.not_mem_nil, false_implies, implies_true, and_true]
    exact ⟨.name (by decide) (by simp), .punctuation (by decide),
      @IsWord.integer ['-'] ['1'] (by decide) (hdigit _ (by decide)),
      @IsWord.float [] ['2'] ['5'] (by decide) (hdigit _ (by decide)) (hdigit _ (by decide)),
      .string _⟩
  have hplain : Unopened "a\x7b b".toList ∧ Unopened "\x7b".toList := by
    simp only [Unopened, List.forall_mem_cons, List.not_mem_nil, false_implies, implies_true,
      and_true]
    decide
  have hwf : Segment.AllWellFormed marked :=
    ⟨by decide, hplain.1, .inr ⟨by decide, _, _, _, rfl⟩, hword, by decide, hplain.2, .inl rfl,
      trivial⟩
  obtain ⟨written, reads⟩ := lex_written marked hwf
  exact reads _ (written '"' (by decide))

end Stencil
