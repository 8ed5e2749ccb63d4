import Lox.Lexeme.Token

/-!
# Programs as trees

Expressions and statements.  A node that may fail when it runs carries the line to report.  A node
that names a variable, `this` or `super` carries an id of its own, under which the scope that the
name refers to is recorded.
-/

namespace Lox

/-- Values that are written as a single token. -/
inductive Literal
  | nil
  | bool (value : Bool)
  | number (value : Float)
  | string (contents : String)
deriving DecidableEq

inductive UnaryOp
  | negate | not
deriving DecidableEq, Repr

/-- Operators between two operands.  `and` and `or` may leave their right operand aside, and the
comma drops the value of its left one. -/
inductive BinaryOp
  | comma | or | and
  | equal | notEqual | less | lessEqual | greater | greaterEqual
  | add | subtract | multiply | divide
deriving DecidableEq, Repr

structure Use where
  id : Nat
  name : String
  line : Nat
deriving DecidableEq, Repr

inductive Expr
  | literal (value : Literal)
  | group (inner : Expr)
  | unary (op : UnaryOp) (operand : Expr) (line : Nat)
  | binary (op : BinaryOp) (left right : Expr) (line : Nat)
  | conditional (test consequent alternative : Expr)
  | var (use : Use)
  | assign (target : Use) (value : Expr)
  | thisRef (id line : Nat)
  | superRef (id : Nat) (method : String) (line : Nat)
  | call (callee : Expr) (arguments : List Expr) (line : Nat)
  | field (object : Expr) (name : String) (line : Nat)
  | setField (object : Expr) (name : String) (value : Expr) (line : Nat)
  | array (elements : List Expr)
  | element (sequence index : Expr) (line : Nat)
  | setElement (sequence index value : Expr) (line : Nat)

mutual

inductive Stmt
  | expr (value : Expr)
  | print (items : List Expr) (line : Nat)
  | varDecl (name : String) (initial? : Option Expr) (line : Nat)
  | block (body : List Stmt)
  | ifElse (test : Expr) (consequent : Stmt) (alternative? : Option Stmt)
  | whileLoop (test : Expr) (body : Stmt)
  | forLoop (initial? : Option Stmt) (test? step? : Option Expr) (body : Stmt)
  | breakLoop
  | continueLoop
  | funDecl (decl : FunctionDecl)
  | returnValue (value? : Option Expr) (line : Nat)
  | classDecl (name : String) (superclass? : Option Use) (methods : List FunctionDecl) (line : Nat)

/-- A function or method: its name, parameters and body, and the line of the name. -/
structure FunctionDecl where
  name : String
  params : List String
  body : List Stmt
  line : Nat

end

/-! ### The tokens of operators and literals -/

def UnaryOp.token : UnaryOp → Token
  | .negate => .mark .minus
  | .not => .mark .bang

def BinaryOp.token : BinaryOp → Token
  | .comma => .mark .comma
  | .or => .keyword .orWord
  | .and => .keyword .andWord
  | .equal => .mark .equalEqual
  | .notEqual => .mark .bangEqual
  | .less => .mark .less
  | .lessEqual => .mark .lessEqual
  | .greater => .mark .greater
  | .greaterEqual => .mark .greaterEqual
  | .add => .mark .plus
  | .subtract => .mark .minus
  | .multiply => .mark .star
  | .divide => .mark .slash

def Literal.token : Literal → Token
  | .nil => .keyword .nilWord
  | .bool true => .keyword .trueWord
  | .bool false => .keyword .falseWord
  | .number value => .number value
  | .string contents => .string contents

end Lox
