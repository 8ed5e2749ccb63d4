import Lox.Syntax.Cursor
import Lox.Syntax.Tree

/-!
# Reading expressions

`exprAt n level` reads an expression of a level of the grammar, from the loosest level, the comma, to
the tightest, the primary expressions.  `n` bounds the depth of the recursion.
-/

namespace Lox

/-- The levels of expressions, loosest first. -/
inductive Level
  | comma | assignment | conditional
  | or | and | equality | comparison | term | factor
  | unary | suffix | primary
deriving DecidableEq, Repr

def Level.tighter : Level → Level
  | .comma => .assignment
  | .assignment => .conditional
  | .conditional => .or
  | .or => .and
  | .and => .equality
  | .equality => .comparison
  | .comparison => .term
  | .term => .factor
  | .factor => .unary
  | .unary => .suffix
  | .suffix => .primary
  | .primary => .primary

def BinaryOp.level : BinaryOp → Level
  | .comma => .comma
  | .or => .or
  | .and => .and
  | .equal | .notEqual => .equality
  | .less | .lessEqual | .greater | .greaterEqual => .comparison
  | .add | .subtract => .term
  | .multiply | .divide => .factor

def BinaryOp.ofToken? : Token → Option BinaryOp
  | .mark .comma => some .comma
  | .keyword .orWord => some .or
  | .keyword .andWord => some .and
  | .mark .equalEqual => some .equal
  | .mark .bangEqual => some .notEqual
  | .mark .less => some .less
  | .mark .lessEqual => some .lessEqual
  | .mark .greater => some .greater
  | .mark .greaterEqual => some .greaterEqual
  | .mark .plus => some .add
  | .mark .minus => some .subtract
  | .mark .star => some .multiply
  | .mark .slash => some .divide
  | _ => none

/-- The operator of a level that a token stands for between two operands. -/
def Level.operator? (level : Level) (token : Token) : Option BinaryOp :=
  (BinaryOp.ofToken? token).filter fun op => op.level = level

/-- The operator that a token stands for in front of its operand. -/
def UnaryOp.ofToken? : Token → Option UnaryOp
  | .mark .minus => some .negate
  | .mark .bang => some .not
  | _ => none

def Literal.ofToken? : Token → Option Literal
  | .keyword .nilWord => some .nil
  | .keyword .trueWord => some (.bool true)
  | .keyword .falseWord => some (.bool false)
  | .number value => some (.number value)
  | .string contents => some (.string contents)
  | _ => none

/-- The assignment of a value to an expression, if it is a variable, a field or an element. -/
def Expr.assigned? (target value : Expr) : Option Expr :=
  match target with
  | .var use => some (.assign use value)
  | .field object name line => some (.setField object name value line)
  | .element sequence index line => some (.setElement sequence index value line)
  | _ => none

open Parse

mutual

def exprAt : Nat → Level → Parse Expr
  | 0, _ => starve
  | n + 1, .assignment => do
    let target ← exprAt n .conditional
    if (← peek) = .mark .equal then
      let spot ← take
      let value ← exprAt n .assignment
      match target.assigned? value with
      | some assignment => return assignment
      | none =>
        report spot .invalidAssignmentTarget
        return target
    else return target
  | n + 1, .conditional => do
    let test ← exprAt n .or
    if ← accept (.mark .question) then
      let consequent ← exprAt n .assignment
      expect (.mark .colon)
      let alternative ← exprAt n .conditional
      return .conditional test consequent alternative
    else return test
  | n + 1, .unary => do
    match UnaryOp.ofToken? (← peek) with
    | some op =>
      let spot ← take
      let operand ← exprAt n .unary
      return .unary op operand spot.line
    | none => exprAt n .suffix
  | n + 1, .suffix => do
    let object ← exprAt n .primary
    suffixesOf n object
  | n + 1, .primary => primary n
  | n + 1, level => do
    let left ← exprAt n level.tighter
    operationsOn n level left

/-- Reads the operators of a level and their right operands behind a left operand.  Operators of one
level group to the left. -/
def operationsOn : Nat → Level → Expr → Parse Expr
  | 0, _, _ => starve
  | n + 1, level, left => do
    match level.operator? (← peek) with
    | some op =>
      let spot ← take
      let right ← exprAt n level.tighter
      operationsOn n level (.binary op left right spot.line)
    | none => return left

/-- Reads calls, fields and elements behind an expression. -/
def suffixesOf : Nat → Expr → Parse Expr
  | 0, _ => starve
  | n + 1, object => do
    match ← peek with
    | .mark .leftParen =>
      let spot ← take
      let arguments ← items n (.mark .rightParen)
      suffixesOf n (.call object arguments spot.line)
    | .mark .dot =>
      let _ ← take
      let (name, line) ← identifier
      suffixesOf n (.field object name line)
    | .mark .leftSquare =>
      let spot ← take
      let index ← exprAt n .comma
      expect (.mark .rightSquare)
      suffixesOf n (.element object index spot.line)
    | _ => return object

/-- Reads expressions between commas through a closing token. -/
def items : Nat → Token → Parse (List Expr)
  | 0, _ => starve
  | n + 1, closing => do
    if ← accept closing then return []
    else
      let first ← exprAt n .assignment
      let others ← moreItems n closing
      return first :: others

/-- Reads further expressions, each behind a comma, through a closing token. -/
def moreItems : Nat → Token → Parse (List Expr)
  | 0, _ => starve
  | n + 1, closing => do
    if ← accept (.mark .comma) then
      let first ← exprAt n .assignment
      let others ← moreItems n closing
      return first :: others
    else
      expect closing
      return []

/-- Reads an expression that starts with none of its operands.  The token here is left if it starts
no expression. -/
def primary : Nat → Parse Expr
  | 0 => starve
  | n + 1 => do
    let token ← peek
    match Literal.ofToken? token with
    | some value =>
      let _ ← take
      return .literal value
    | none =>
      match token with
      | .identifier name =>
        let spot ← take
        let id ← fresh
        return .var ⟨id, name, spot.line⟩
      | .keyword .thisWord =>
        let spot ← take
        let id ← fresh
        return .thisRef id spot.line
      | .keyword .superWord =>
        let spot ← take
        expect (.mark .dot)
        let (method, _) ← identifier
        let id ← fresh
        return .superRef id method spot.line
      | .mark .leftParen =>
        let _ ← take
        let inner ← exprAt n .comma
        expect (.mark .rightParen)
        return .group inner
      | .mark .leftSquare =>
        let _ ← take
        let elements ← items n (.mark .rightSquare)
        return .array elements
      | _ => fail .expectedExpression

end

end Lox
