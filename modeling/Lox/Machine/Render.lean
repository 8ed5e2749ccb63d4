import Lox.Machine.Heap
import Lox.Number.Text

/-!
# Texts of values

`Heap.render` is the text that `print` writes for a value.  An array is written with its elements; an
array that is met again inside itself is written `[...]`.
-/

namespace Lox.Heap

/-- The text of a value that is not an array. -/
def renderScalar (h : Heap) : Value → String
  | .nil => "nil"
  | .bool true => "true"
  | .bool false => "false"
  | .number value => Number.text value
  | .string contents => contents
  | .function r => "<fun " ++ ((h.closure? r).map (·.decl.name)).getD "" ++ ">"
  | .native f => "<native fun " ++ f.name ++ ">"
  | .classObject r => "<class " ++ ((h.classObject? r).map (·.name)).getD "" ++ ">"
  | .instance r =>
    "<instance of " ++ (((h.instance? r).bind (h.classObject? ·.classRef)).map (·.name)).getD "" ++ ">"
  | .array _ => "[...]"

/-- Writes a value.  The state is the arrays around it whose elements are being written, the innermost
one first; one of them that is met again contains itself.  There is no text if values nest `n` deep. -/
def renderOpen (h : Heap) : Nat → Value → StateT (List (Ref .array)) Option String
  | 0, _ => failure
  | n + 1, .array r => do
    let enclosing ← get
    if r ∈ enclosing then return h.renderScalar (.array r)
    else
      modify (r :: ·)
      let texts ← (h.elements r).toList.mapM (h.renderOpen n)
      modify List.tail
      return "[" ++ ", ".intercalate texts ++ "]"
  | _ + 1, v => return h.renderScalar v

/-- The text of a value.  The arrays around a place are different from each other, so they nest no
deeper than there are arrays. -/
def render (h : Heap) (v : Value) : String :=
  ((h.renderOpen (h.arrays.size + 1) v).run' []).getD ""

end Lox.Heap
