/-
Stencil/Proofs/Tree/Refused.lean

Why a source is refused.  Either its characters form no tokens, or one of its tokens cannot stand
where it does, and the fault says at which place of the source; or a number cannot be read.  The
texts of number tokens match the patterns of numbers, so a number with a fraction is always read
(`readFloat_of_isWord`), and a whole number unless it has more digits than the limit
(`readInt_of_isWord`).  Such a number is refused wherever its value is asked for, and with a fault
that is none of templates (`ofSource_overlong`).
-/
import Stencil.Proofs.Numeral.Decimal
import Stencil.Proofs.Run
import Stencil.Proofs.Source.Refusal
import Stencil.Proofs.Tree.Outcome
import Stencil.Render.World

namespace Stencil

variable {cs rest sign whole fraction : List Char}

/-! ### Number literals are read -/

/-- How many digits the text of a token has. -/
def Token.digits (t : Token) : Nat := t.text.toList.countP Text.isDecimal

/-- The values of the digits in a text. -/
def digitValues (cs : List Char) : List Nat := cs.filterMap Text.digitValue?

theorem length_digitValues (h : ∀ c ∈ cs, Text.isDecimal c = true) :
    (digitValues cs).length = cs.length := by
  rw [digitValues, List.length_filterMap_eq_countP]
  exact List.countP_eq_length.mpr h

theorem endsDigits_nil : EndsDigits [] := by
  intro c hc
  cases hc

theorem takeDigits_decimals (h : EndsDigits rest) (hcs : ∀ c ∈ cs, Text.isDecimal c = true)
    (started : Bool) : takeDigits started (cs ++ rest) = (digitValues cs, rest) := by
  induction cs generalizing started with
  | nil =>
    cases rest with
    | nil => rfl
    | cons c rest =>
      obtain ⟨hc, hne⟩ := h c rfl
      simp [takeDigits, hc, hne, digitValues]
  | cons c cs ih =>
    obtain ⟨d, hd⟩ := Option.isSome_iff_exists.mp (hcs c List.mem_cons_self)
    have hds := ih (fun c' hc' => hcs c' (List.mem_cons_of_mem _ hc')) true
    rw [List.cons_append, takeDigits, hd]
    simp only [hds, digitValues, List.filterMap_cons, hd]

theorem not_isDecimal_of_mem_sign (h : sign ∈ signs) {c : Char} (hc : c ∈ sign) :
    Text.isDecimal c = false ∧ isMargin c = false := by
  simp only [signs, List.mem_cons, List.not_mem_nil, or_false] at h
  rcases h with rfl | rfl
  · cases hc
  · obtain rfl := List.mem_singleton.mp hc
    decide

theorem countP_literal (isSign : sign ∈ signs) (digits : AreDigits whole) :
    (sign ++ whole).countP Text.isDecimal = whole.length := by
  rw [List.countP_append, List.countP_eq_length.mpr digits.2,
    List.countP_eq_zero.mpr fun c hc => by simp [(not_isDecimal_of_mem_sign isSign hc).1],
    Nat.zero_add]

theorem isMargin_of_isDecimal {c : Char} (h : Text.isDecimal c = true) : isMargin c = false := by
  simp [isMargin, not_isBlank_of_isDecimal h]

/-- The sign of a number literal is taken. -/
theorem takeSign_literal (isSign : sign ∈ signs) (digits : AreDigits whole) :
    takeSign (sign ++ (whole ++ rest)) = (sign == ['-'], whole ++ rest) := by
  simp only [signs, List.mem_cons, List.not_mem_nil, or_false] at isSign
  rcases isSign with rfl | rfl
  · obtain ⟨hne, hdigits⟩ := digits
    obtain ⟨c, cs, rfl⟩ := List.exists_cons_of_ne_nil hne
    have hc := hdigits c List.mem_cons_self
    rw [List.nil_append, List.cons_append, takeSign]
    · rfl
    · intro tail heq
      obtain ⟨rfl, -⟩ := List.cons.inj heq
      exact absurd hc (by decide)
    · intro tail heq
      obtain ⟨rfl, -⟩ := List.cons.inj heq
      exact absurd hc (by decide)
  · rfl

/-- The whole number that a sign and digits stand for. -/
def literalValue (sign whole : List Char) : Int :=
  if sign = ['-'] then -(ofDigits (digitValues whole) : Int) else ofDigits (digitValues whole)

/-- A sign and digits are read as what they stand for, unless there are too many digits. -/
theorem readInt_literal (isSign : sign ∈ signs) (digits : AreDigits whole) :
    readInt (String.ofList (sign ++ whole)) = if digitLimit < whole.length
      then .error (.tooLong whole.length) else .ok (literalValue sign whole) := by
  have hmargin : ∀ c ∈ sign ++ whole, isMargin c = false := fun c hc =>
    (List.mem_append.mp hc).elim (fun hc => (not_isDecimal_of_mem_sign isSign hc).2)
      fun hc => isMargin_of_isDecimal (digits.2 c hc)
  have hsign := @takeSign_literal [] _ _ isSign digits
  have htake := takeDigits_decimals endsDigits_nil digits.2 false
  have hlen := length_digitValues digits.2
  rw [List.append_nil] at hsign htake
  have hne : digitValues whole ≠ [] := by
    rw [← List.length_pos_iff, hlen, List.length_pos_iff]
    exact digits.1
  simp only [readInt, String.toList_ofList, dropMargins_eq hmargin, hsign, htake, hlen]
  rw [if_neg (by simp), literalValue]
  simp [hne]

/-- A whole number is read unless it has too many digits. -/
theorem readInt_of_isWord (h : IsWord .integer cs) :
    (cs.countP Text.isDecimal ≤ digitLimit → ∃ n, readInt (String.ofList cs) = .ok n) ∧
      (digitLimit < cs.countP Text.isDecimal →
        readInt (String.ofList cs) = .error (.tooLong (cs.countP Text.isDecimal))) := by
  cases h with
  | punctuation mem => simp [punctuationMarks] at mem
  | @integer sign whole isSign digits =>
    rw [countP_literal isSign digits, readInt_literal isSign digits]
    constructor
    · intro hle
      exact ⟨_, if_neg (Nat.not_lt.mpr hle)⟩
    · intro hlt
      exact if_pos hlt

/-- A number with a fraction is read. -/
theorem readFloat_of_isWord (h : IsWord .float cs) :
    ∃ x, readFloat (String.ofList cs) = .ok x := by
  cases h with
  | punctuation mem => simp [punctuationMarks] at mem
  | @float sign whole fraction isSign digits digits' =>
    have hmargin : ∀ c ∈ sign ++ (whole ++ '.' :: fraction), isMargin c = false := by
      intro c hc
      rcases List.mem_append.mp hc with hc | hc
      · exact (not_isDecimal_of_mem_sign isSign hc).2
      rcases List.mem_append.mp hc with hc | hc
      · exact isMargin_of_isDecimal (digits.2 c hc)
      rcases List.mem_cons.mp hc with rfl | hc
      · decide
      · exact isMargin_of_isDecimal (digits'.2 c hc)
    have hsign := @takeSign_literal ('.' :: fraction) _ _ isSign digits
    set negative := sign == ['-']
    have hdot : EndsDigits ('.' :: fraction) := by
      intro c hc
      obtain rfl : '.' = c := by simpa using hc
      decide
    have htake := takeDigits_decimals hdot digits.2 false
    have htake' := takeDigits_decimals endsDigits_nil digits'.2 false
    rw [List.append_nil] at htake'
    have hne : digitValues whole ≠ [] := by
      rw [← List.length_pos_iff, length_digitValues digits.2, List.length_pos_iff]
      exact digits.1
    have hread : (readUnsigned negative (whole ++ '.' :: fraction)).isSome := by
      simp [readUnsigned, htake, htake', hne, readExponent]
    simp only [readFloat, String.toList_ofList, dropMargins_eq hmargin, hsign]
    rcases hword : readWord negative (whole ++ '.' :: fraction) with - | x
    · obtain ⟨x, hx⟩ := Option.isSome_iff_exists.mp hread
      exact ⟨x, by simp [hx]⟩
    · exact ⟨x, by simp⟩

/-- A number literal that cannot be read is a whole number of too many digits. -/
theorem overlong_of_readInt {t : Token} {e : NumberError} (h : IsNumber t.kind t.text.toList)
    (kind : t.kind = .integer) (reads : readInt t.text = .error e) :
    digitLimit < t.digits ∧ e = .tooLong t.digits := by
  obtain ⟨short, long⟩ := readInt_of_isWord (kind ▸ h (.inl kind))
  rw [String.ofList_toList] at short long
  rcases Nat.lt_or_ge digitLimit t.digits with hlt | hle
  · rw [long hlt] at reads
    exact ⟨hlt, (Except.error.inj reads).symm⟩
  · obtain ⟨n, hn⟩ := short hle
    simp [hn] at reads

/-! ### Sources that are refused -/

/-- What is wrong with a source: a complaint at a place in it, or a whole number of too many
digits among its tokens. -/
inductive Refusal.Of (source : String) : Refusal → Prop
  | lexical (c : Complaint) {place : Position} (inside : InSource source.toList place) :
      Of source (.lexical c place)
  | grammatical (c : Complaint) {t : Token} (inside : InSource source.toList t.position) :
      Of source (.grammatical c t)
  | overlong {tokens : List Token} {t : Token} (lexed : lex source = .ok tokens) (mem : t ∈ tokens)
      (kind : t.kind = .integer) (long : digitLimit < t.digits) :
      Of source (.numeral (.tooLong t.digits))

/-- The tokens of a source end in one that closes the list. -/
theorem closed_of_lexChars {tokens : List Token} (h : lexChars cs = .ok tokens) :
    Reader.Closed tokens := by
  obtain ⟨chunks, laid, rfl, rfl⟩ := exists_laid h
  obtain ⟨front, last, hspots, hkind, -⟩ := laid.layout.closed
  refine ⟨last.token, ?_, hkind⟩
  rw [← laid.layout.tokens_eq, hspots]
  simp

theorem Tree.refusal_of_ofSource {source : String} {e : Refusal}
    (h : Tree.ofSource source = .error e) : e.Of source := by
  rcases hlex : lex source with f | tokens
  · obtain rfl : f = e := by simpa [Tree.ofSource, hlex, bind, Except.bind] using h
    obtain ⟨c, place, rfl, inside⟩ := lexChars_eq_error hlex
    exact .lexical c inside
  · have hread := Tree.ofTokens_concludes (closed_of_lexChars hlex)
    rw [show Tree.ofTokens tokens = .error e by
      simpa [Tree.ofSource, hlex, bind, Except.bind] using h] at hread
    cases hread with
    | grammatical mem c => exact .grammatical c (inSource_of_lex hlex mem)
    | integer mem kind reads =>
      obtain ⟨long, rfl⟩ := overlong_of_readInt (isNumber_of_walk hlex _ mem) kind reads
      exact .overlong hlex mem kind long
    | @float t _ mem kind reads =>
      obtain ⟨x, hx⟩ := readFloat_of_isWord (kind ▸ isNumber_of_walk hlex t mem (.inr kind))
      rw [String.ofList_toList, reads] at hx
      cases hx

/-- The nodes of a source that is read stand in it. -/
theorem Tree.inSource_of_ofSource {source : String} {tree : Tree Atom}
    (h : Tree.ofSource source = .ok tree) {p : Position} (hp : p ∈ Node.allPlaces tree.body) :
    InSource source.toList p := by
  rcases hlex : lex source with f | tokens
  · simp [Tree.ofSource, hlex, bind, Except.bind] at h
  · have hread := Tree.ofTokens_concludes (closed_of_lexChars hlex)
    rw [show Tree.ofTokens tokens = .ok tree by
      simpa [Tree.ofSource, hlex, bind, Except.bind] using h] at hread
    obtain ⟨t, mem, rfl⟩ := hread p hp
    exact inSource_of_lex hlex mem

/-- A number of too many digits is refused where it is the value of a region. -/
theorem Tree.ofSource_overlong (isSign : sign ∈ signs) (digits : AreDigits whole)
    (long : digitLimit < whole.length) :
    Tree.ofSource (String.ofList (Segment.write '"'
        [.region .variableRegion [(.integer, String.ofList (sign ++ whole))]]))
      = .error (.numeral (.tooLong whole.length)) := by
  have hword : IsWord .integer (sign ++ whole) := .integer isSign digits
  have hwf : Segment.AllWellFormed
      [.region .variableRegion [(.integer, String.ofList (sign ++ whole))]] :=
    ⟨by simpa using hword, trivial⟩
  obtain ⟨tokens, hlex, hlexemes⟩ :=
    walk_written (written_write (List.mem_cons_of_mem _ List.mem_cons_self) _) hwf Position.start
  obtain ⟨opening, tokens, rfl, hopening, htokens⟩ := List.map_eq_cons_iff.mp hlexemes
  obtain ⟨number, tokens, rfl, hnumber, -⟩ := List.map_eq_cons_iff.mp htokens
  obtain ⟨hopen, -⟩ := Token.lexeme_eq_iff.mp hopening
  obtain ⟨kind, text⟩ := Token.lexeme_eq_iff.mp hnumber
  have hread : readInt number.text = .error (.tooLong whole.length) := by
    rw [text, (readInt_of_isWord hword).2 (by rwa [countP_literal isSign digits]),
      countP_literal isSign digits]
  have hliteral : Reader.literal? number = some (.error (.tooLong whole.length)) := by
    simp [Reader.literal?, kind, hread, Except.map]
  have hprimary (n : Nat) : Reader.primary (n + 1) (number :: tokens)
      = .error (.numeral (.tooLong whole.length)) := by
    rw [Reader.primary, hliteral]
  have hexpression (n : Nat) : Reader.expression (n + 2) (number :: tokens)
      = .error (.numeral (.tooLong whole.length)) := by
    rw [Reader.expression, if_neg (by simp [kind]), hprimary]
  have hbody (n : Nat) : Reader.body (n + 3) [] (opening :: number :: tokens)
      = .error (.numeral (.tooLong whole.length)) := by
    rw [Reader.body, hopen]
    simp only [Region.beginKind, hexpression]
    rfl
  obtain ⟨n, hn⟩ : ∃ n, Reader.enough (opening :: number :: tokens) = n + 3 :=
    ⟨2 * tokens.length + 3, by simp +arith [Reader.enough]⟩
  rw [Tree.ofSource, lex, String.toList_ofList, lexChars, hlex]
  show Reader.body (Reader.enough (opening :: number :: tokens)) [] _ >>= _ = _
  rw [hn, hbody]
  rfl

/-- Reading a source gives a template, or fails with the fault of a source that cannot be read, at a
place of the source; any other fault it fails with is that of a whole number of more digits than
the limit, and one of the tokens is such a number.  Where it fails, nothing is changed. -/
theorem readTemplate_outcome (environment : Nat) (source : String) (name : Option String)
    (w : World) :
    (∃ tree, Tree.ofSource source = .ok tree ∧
      (readTemplate environment source name).exec w = (.ok w.templates.size,
        { w with templates :=
            w.templates.add ⟨environment, tree.map .atom, name, source⟩ })) ∨
    (∃ m place, (readTemplate environment source name).exec w
        = (.error (.failed (.of (.malformed m))), w) ∧
      m.name = name ∧ m.source = some source ∧ m.line = some place.line ∧
      m.column = some place.column ∧ InSource source.toList place) ∨
    ∃ tokens t, lex source = .ok tokens ∧ t ∈ tokens ∧ t.kind = .integer ∧
      digitLimit < t.digits ∧ (readTemplate environment source name).exec w
        = (.error (.failed (.of (.numeral (.tooLong t.digits)))), w) := by
  rcases h : Tree.ofSource source with e | tree
  · have hexec : (readTemplate environment source name).exec w
        = (.error (.failed (.of (e.toFault name source))), w) := by
      rw [readTemplate, h]
      rfl
    cases Tree.refusal_of_ofSource h with
    | @lexical c place inside =>
      exact .inr (.inl ⟨_, place, hexec, rfl, rfl, rfl, rfl, inside⟩)
    | @grammatical c t inside =>
      exact .inr (.inl ⟨_, t.position, hexec, rfl, rfl, rfl, rfl, inside⟩)
    | @overlong tokens t lexed mem kind long =>
      exact .inr (.inr ⟨tokens, t, lexed, mem, kind, long, hexec⟩)
  · refine .inl ⟨tree, rfl, ?_⟩
    rw [readTemplate, h]
    rfl

end Stencil
