import Lox.Machine.Fault

/-!
# Operators on values
-/

namespace Lox

def UnaryOp.apply : UnaryOp → Value → Except RuntimeError Value
  | .not, v => .ok (.bool (!v.truthy))
  | .negate, .number x => .ok (.number (-x))
  | .negate, _ => .error .operandNotNumber

/-- Whether the left operand is the value already and the right one is not looked at. -/
def BinaryOp.settledBy : BinaryOp → Value → Bool
  | .or, v => v.truthy
  | .and, v => !v.truthy
  | _, _ => false

def arithmetic (f : Float → Float → Except RuntimeError Value) :
    Value → Value → Except RuntimeError Value
  | .number x, .number y => f x y
  | _, _ => .error .operandsNotNumbers

/-- A comparison of two numbers or of two strings.  Strings compare by their first differing
character. -/
def comparison (numbers : Float → Float → Bool) (strings : String → String → Bool) :
    Value → Value → Except RuntimeError Value
  | .number x, .number y => .ok (.bool (numbers x y))
  | .string s, .string t => .ok (.bool (strings s t))
  | _, _ => .error .operandsMismatch

/-- The value of a binary operation both of whose operands were looked at. -/
def BinaryOp.apply : BinaryOp → Value → Value → Except RuntimeError Value
  | .comma, _, r | .or, _, r | .and, _, r => .ok r
  | .equal, l, r => .ok (.bool (l.same r))
  | .notEqual, l, r => .ok (.bool (!l.same r))
  | .less, l, r => comparison (· < ·) (· < ·) l r
  | .lessEqual, l, r => comparison (· ≤ ·) (fun s t => ¬ t < s) l r
  | .greater, l, r => comparison (· > ·) (· > ·) l r
  | .greaterEqual, l, r => comparison (· ≥ ·) (fun s t => ¬ s < t) l r
  | .add, .number x, .number y => .ok (.number (x + y))
  | .add, .string s, .string t => .ok (.string (s ++ t))
  | .add, _, _ => .error .operandsMismatch
  | .subtract, l, r => arithmetic (fun x y => .ok (.number (x - y))) l r
  | .multiply, l, r => arithmetic (fun x y => .ok (.number (x * y))) l r
  | .divide, l, r =>
    arithmetic (fun x y => if y == 0 then .error .divisionByZero else .ok (.number (x / y))) l r

/-- The place in an array of a length that an index value stands for. -/
def elementIndex (length : Nat) : Value → Except RuntimeError Nat
  | .number x =>
    if (Number.integer? x).isNone then .error .indexNotInteger
    else if x < 0 ∨ x ≥ Number.ofNat length then .error (.indexOutOfRange x length)
    else .ok x.toUInt64.toNat
  | _ => .error .indexNotInteger

example : (BinaryOp.less.apply (.string "B") (.string "a")).toOption = some (.bool true) := by
  decide +kernel
example : (BinaryOp.divide.apply (.number 1) (.number (-0.0))).toOption = none := by decide +kernel
example : (elementIndex 2 (.number 1)).toOption = some 1 := by decide +kernel
example : (elementIndex 2 (.number 0.5)).toOption = none := by decide +kernel

end Lox
