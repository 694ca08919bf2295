/-
Stencil/Text/Quoted.lean

Quoted texts.  A text is quoted with apostrophes, or with double quotes when
it holds an apostrophe and no double quote.  Inside, the backslash and the
quote in use are written after a backslash, line feed, carriage return and tab
by their letters, and other unprintable characters by their number in
hexadecimal, at the least width that holds it.
-/
import Stencil.Text.Printable

namespace Stencil.Text

/-- The hexadecimal digits of `n`, exactly `width` of them. -/
def hexDigits : (width : Nat) → (n : Nat) → List Char
  | 0, _ => []
  | width + 1, n => hexDigits width (n / 16) ++ [Nat.digitChar (n % 16)]

/-- The mark a text is quoted with. -/
def quoteMark (cs : List Char) : Char :=
  if cs.contains '\'' && !cs.contains '"' then '"' else '\''

/-- How one character is written between quotation marks. -/
def escapeChar (mark c : Char) : List Char :=
  if c == mark || c == '\\' then ['\\', c]
  else if c == '\n' then ['\\', 'n']
  else if c == '\r' then ['\\', 'r']
  else if c == '\t' then ['\\', 't']
  else if isPrintable c then [c]
  else if c.toNat < 0x100 then '\\' :: 'x' :: hexDigits 2 c.toNat
  else if c.toNat < 0x10000 then '\\' :: 'u' :: hexDigits 4 c.toNat
  else '\\' :: 'U' :: hexDigits 8 c.toNat

/-- A text between quotation marks. -/
def quoteChars (cs : List Char) : List Char :=
  let mark := quoteMark cs
  mark :: cs.flatMap (escapeChar mark) ++ [mark]

/-- A text between quotation marks. -/
def quote (s : String) : String := String.ofList (quoteChars s.toList)

end Stencil.Text
