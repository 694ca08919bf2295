/-
Stencil/Value/Text.lean

Values as text.  Printed by itself a string is its own text; inside another
value it is quoted, as is every string when the quoted text of a value is asked
for.  An object inside itself is shown by dots between its brackets.

Writing fails only for whole numbers that are too long to be written, and for
a loop of which a copy was left unfinished.
-/
import Stencil.Fault.Kind
import Stencil.Value
import Stencil.Value.Unsupported

namespace Stencil

/-- The quoted text of an atom. -/
def Atom.quoted (a : Atom) : Except Fault String :=
  a.quoted?.elim (.error (.numeral .unwritable)) .ok

namespace Heap

/-- A loop as text: the number of the item and the number of items. -/
def loopText (h : Heap) : Option LoopState → Except Fault String
  | some l => .ok s!"<LoopContext {l.position + 1}/{(h.listItems l.items).length}>"
  | none => .error (missingAttribute "LoopContext" "_position")

/-- The items of a tuple between its brackets; a single item is followed by a comma. -/
def tupleText : List String → String
  | [one] => "(" ++ one ++ ",)"
  | many => "(" ++ ", ".intercalate many ++ ")"

/-- The quoted text of a value inside the objects `around` it, at most `depth` objects deep. -/
def quotedIn (h : Heap) : (depth : Nat) → (around : List Nat) → Value → Except Fault String
  | _, _, .atom a => a.quoted
  | _, _, .method _ name => .ok ("<method " ++ name ++ ">")
  | 0, _, .object _ => .ok "..."
  | depth + 1, around, .object i =>
    match h.get? i with
    | none => .ok "object"
    | some (.list xs) =>
      if around.contains i then .ok "[...]"
      else do
        let texts ← xs.mapM (h.quotedIn depth (i :: around))
        .ok ("[" ++ ", ".intercalate texts ++ "]")
    | some (.tuple xs) =>
      if around.contains i then .ok "(...)"
      else do
        let texts ← xs.mapM (h.quotedIn depth (i :: around))
        .ok (tupleText texts)
    | some (.dict es) =>
      if around.contains i then .ok "\x7b...\x7d"
      else do
        let texts ← es.mapM fun e => do
          let key ← h.quotedIn depth (i :: around) e.1
          let value ← h.quotedIn depth (i :: around) e.2
          .ok (key ++ ": " ++ value)
        .ok ("\x7b" ++ ", ".intercalate texts ++ "\x7d")
    | some (.generator _) => .ok "<generator>"
    | some (.sealed t) => .ok ("Opaque(" ++ t ++ ")")
    | some (.thing t) => .ok ("Obj(" ++ t.name.getD "None" ++ ")")
    | some (.loop l) => h.loopText l

/-- The quoted text of a value. -/
def quoted (h : Heap) (v : Value) : Except Fault String := h.quotedIn (h.objects.size + 1) [] v

/-- The text of a value. -/
def text (h : Heap) : Value → Except Fault String
  | .atom (.str s) => .ok s
  | v => h.quoted v

/-- A value to build a fault with. -/
def subject (h : Heap) (v : Value) : Except Fault Subject := do
  let text ← h.text v
  let quoted ← h.quoted v
  match v with
  | .atom a => .ok ⟨text, quoted, a⟩
  | _ => .ok ⟨text, quoted, .str text⟩

/-- The text of a value where nothing stands for absence. -/
def printed (h : Heap) : Value → Except Fault String
  | .atom .none => .ok ""
  | v => h.text v

end Heap

end Stencil
