import Lox.Syntax.Tree

/-!
# Values

Numbers, strings, truth values and `nil` are values by themselves.  Functions, classes, instances and
arrays are objects of the heap, and a value holds a reference to one.
-/

namespace Lox

inductive ObjectKind
  | frame | closure | classObject | «instance» | array
deriving DecidableEq, Repr

/-- A reference to an object of a kind: the number of objects of that kind made before it. -/
structure Ref (kind : ObjectKind) where
  index : Nat
deriving DecidableEq, Repr

/-- Functions that every program is given. -/
inductive Native
  | len | push
deriving DecidableEq, Repr

def Native.all : List Native :=
  [.len, .push]

def Native.name : Native → String
  | .len => "len"
  | .push => "push"

def Native.arity : Native → Nat
  | .len => 1
  | .push => 2

inductive Value
  | nil
  | bool (value : Bool)
  | number (value : Float)
  | string (contents : String)
  | function (ref : Ref .closure)
  | native (native : Native)
  | classObject (ref : Ref .classObject)
  | «instance» (ref : Ref .instance)
  | array (ref : Ref .array)
deriving DecidableEq

def Literal.toValue : Literal → Value
  | .nil => .nil
  | .bool value => .bool value
  | .number value => .number value
  | .string contents => .string contents

/-- `nil` and `false` count as false, and every other value as true. -/
def Value.truthy : Value → Bool
  | .nil | .bool false => false
  | _ => true

/-- Equality as programs see it.  Numbers compare as doubles do: not-a-number differs from itself,
and the two zeros are the same.  Objects are the same only as themselves. -/
def Value.same : Value → Value → Bool
  | .number x, .number y => x == y
  | v, w => v = w

example : Value.same (.number 0.0) (.number (-0.0)) = true := by decide +kernel
example : Value.same (.string "a") (.string "a") = true := by decide +kernel
example : Value.same .nil (.bool false) = false := by decide +kernel

end Lox
