/-
Stencil/Numeral/Reading.lean

Numbers from text.  Blanks at both ends and a sign are allowed; digits may
come from any script, and single underscores may stand between digits.  A
whole number of more than 4300 digits is refused before anything that follows
its digits is looked at.  Other numbers may have a fraction and an exponent, or
be the words for infinity and not-a-number.
-/
import Stencil.Numeral.Written
import Stencil.Text.Blank
import Stencil.Text.Digit
import Stencil.Text.Quoted

namespace Stencil

/-- Why a text is no number. -/
inductive NumberError where
  /-- A whole number of too many digits. -/
  | tooLong (digits : Nat)
  | notWhole (text : String)
  | notNumber (text : String)
  /-- A whole number too long to be written. -/
  | unwritable
  deriving DecidableEq, Repr

/-- The wording of a limit on digits; `more` says by what it is exceeded. -/
def limitText (more : String) : String :=
  s!"Exceeds the limit ({digitLimit} digits) for integer string conversion{more}; " ++
    "use sys.set_int_max_str_digits() to increase the limit"

/-- The wording of a number error.  Of a long text only the beginning is quoted. -/
def NumberError.message : NumberError → String
  | .tooLong n => limitText s!": value has {n} digits"
  | .notWhole t =>
    "invalid literal for int() with base 10: " ++
      String.ofList ((Text.quoteChars t.toList).take 200)
  | .notNumber t => "could not convert string to float: " ++ Text.quote t
  | .unwritable => limitText ""

/-! ### Margins and digits -/

/-- Blanks that may surround a number: the information separators are not among them. -/
def isMargin (c : Char) : Bool := Text.isBlank c && !(0x1c ≤ c.toNat && c.toNat ≤ 0x1f)

/-- A text without the blanks around it. -/
def dropMargins (cs : List Char) : List Char :=
  ((cs.dropWhile isMargin).reverse.dropWhile isMargin).reverse

/-- The digits at the front of a text, as values, and what follows.  When `started`, a digit has
been read, and an underscore with a digit behind it is passed over. -/
def takeDigits (started : Bool) : List Char → List Nat × List Char
  | [] => ([], [])
  | c :: rest =>
    match Text.digitValue? c with
    | some d =>
      let (digits, after) := takeDigits true rest
      (d :: digits, after)
    | none =>
      if started && c == '_' && rest.head?.any Text.isDecimal then takeDigits false rest
      else ([], c :: rest)

/-- The number that digits stand for. -/
def ofDigits (digits : List Nat) : Nat := digits.foldl (fun n d => 10 * n + d) 0

/-- A sign at the front of a text: whether it is a minus, and what follows. -/
def takeSign : List Char → Bool × List Char
  | '-' :: rest => (true, rest)
  | '+' :: rest => (false, rest)
  | cs => (false, cs)

/-! ### Whole numbers -/

/-- The whole number written by a text. -/
def readInt (text : String) : Except NumberError Int :=
  let (negative, body) := takeSign (dropMargins text.toList)
  let (digits, rest) := takeDigits false body
  if rest.head? = some '_' then .error (.notWhole text)
  else if digitLimit < digits.length then .error (.tooLong digits.length)
  else if digits.isEmpty || !rest.isEmpty then .error (.notWhole text)
  else .ok (if negative then -(ofDigits digits : Int) else ofDigits digits)

/-! ### Numbers with a fraction -/

/-- The part of a number after its digits: an optional exponent, up to the end. -/
def readExponent : List Char → Option Int
  | [] => some 0
  | c :: rest =>
    if c == 'e' || c == 'E' then
      let (negative, body) := takeSign rest
      let (digits, after) := takeDigits false body
      if digits.isEmpty || !after.isEmpty then none
      else some (if negative then -(ofDigits digits : Int) else ofDigits digits)
    else none

/-- An unsigned number with optional fraction and exponent. -/
def readUnsigned (negative : Bool) (cs : List Char) : Option Binary64 :=
  let (whole, rest) := takeDigits false cs
  let (fraction, rest) :=
    match rest with
    | '.' :: after => takeDigits false after
    | _ => ([], rest)
  if whole.isEmpty && fraction.isEmpty then none
  else (readExponent rest).map fun power =>
    Binary64.ofDecimal negative (ofDigits (whole ++ fraction)) (power - fraction.length)

/-- The words for values that no digits write. -/
def readWord (negative : Bool) (cs : List Char) : Option Binary64 :=
  match String.ofList (cs.map Char.toLower) with
  | "inf" | "infinity" => some (.infinite negative)
  | "nan" => some (.nan 0)
  | _ => none

/-- The number written by a text. -/
def readFloat (text : String) : Except NumberError Binary64 :=
  let (negative, body) := takeSign (dropMargins text.toList)
  match (readWord negative body).or (readUnsigned negative body) with
  | some x => .ok x
  | none => .error (.notNumber text)

end Stencil
