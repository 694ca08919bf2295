/-
Stencil/Value/Atom.lean

Atoms: the values without identity and without parts.  Literals of a template
are atoms, and so are the leaves of all other values.
-/
import Stencil.Numeral.Written
import Stencil.Text.Quoted

namespace Stencil

/-- A value without parts. -/
inductive Atom where
  | none
  | bool (b : Bool)
  | int (n : Int)
  | float (x : Binary64)
  | str (s : String)
  deriving DecidableEq, Repr

namespace Atom

/-- The name of an atom's type. -/
def typeName : Atom → String
  | none => "NoneType"
  | bool _ => "bool"
  | int _ => "int"
  | float _ => "float"
  | str _ => "str"

/-- The quoted text of an atom, unless it is a number too long to be written. -/
def quoted? : Atom → Option String
  | none => some "None"
  | bool b => some (if b then "True" else "False")
  | int n => intText? n
  | float x => some x.text
  | str s => some (Text.quote s)

/-- The text of an atom, unless it is a number too long to be written. -/
def text? : Atom → Option String
  | str s => some s
  | a => a.quoted?

/-- The whole number an atom counts as: truth values count as one and zero. -/
def wholeNumber? : Atom → Option Int
  | bool b => some (if b then 1 else 0)
  | int n => some n
  | _ => Option.none

/-- Empty and zero atoms are false. -/
def truth : Atom → Bool
  | none => false
  | bool b => b
  | int n => n != 0
  | float x => !x.isZero
  | str s => !s.isEmpty

/-- Equality of atoms.  Numbers are compared by value, whatever their type. -/
def beqValue : Atom → Atom → Bool
  | none, none => true
  | str s, str t => s == t
  | float x, float y => x.numEq y
  | float x, a => a.wholeNumber?.any x.eqInt
  | a, float y => a.wholeNumber?.any y.eqInt
  | a, b => a.wholeNumber?.isSome && a.wholeNumber? == b.wholeNumber?

end Atom

end Stencil
