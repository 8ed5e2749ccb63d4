import Lox.Diagnostic
import Lox.Machine.Value

/-!
# Faults

What can go wrong while a program runs.
-/

namespace Lox

inductive RuntimeError
  | operandsNotNumbers
  | operandNotNumber
  | operandsMismatch
  | divisionByZero
  | undefinedVariable (name : String)
  | notCallable
  | arity (expected found : Nat)
  | propertyOfNonInstance
  | fieldOfNonInstance
  | undefinedProperty (name : String)
  | superclassNotClass
  | notAnArray
  | indexNotInteger
  | indexOutOfRange (index : Float) (length : Nat)
  | badArgument (function : Native)
  | outputFull
deriving DecidableEq

def Native.expectation : Native → String
  | .len => "an array"
  | .push => "an array as first argument"

def RuntimeError.message : RuntimeError → String
  | .operandsNotNumbers => "operands must be numbers"
  | .operandNotNumber => "operand must be a number"
  | .operandsMismatch => "operands must be two numbers or two strings"
  | .divisionByZero => "division by zero"
  | .undefinedVariable name => "undefined variable " ++ quoted name
  | .notCallable => "can only call functions and classes"
  | .arity expected found =>
    "expected " ++ toString expected ++ " arguments but got " ++ toString found
  | .propertyOfNonInstance => "only instances have properties"
  | .fieldOfNonInstance => "only instances have fields"
  | .undefinedProperty name => "undefined property " ++ quoted name
  | .superclassNotClass => "superclass must be a class"
  | .notAnArray => "only arrays can be indexed"
  | .indexNotInteger => "index must be an integer"
  | .indexOutOfRange index length =>
    "index " ++ Number.text index ++ " out of range for array of length " ++ toString length
  | .badArgument function => function.name ++ "() expects " ++ function.expectation
  | .outputFull => "I/O error: output full"

/-- An error and the line on which it arose. -/
structure Fault where
  line : Nat
  error : RuntimeError
deriving DecidableEq

def Fault.render (f : Fault) : String :=
  "runtime error: [line " ++ toString f.line ++ "] " ++ f.error.message

end Lox
