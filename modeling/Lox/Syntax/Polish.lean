import Lox.Syntax.Tree

/-!
# Polish forms

Two texts of a tree.  `Expr.polish` and `Stmt.polish` put every operation in parentheses, with its
head in front of its operands: `(+ 1 (* 2 3))`.  `Expr.reversePolish` writes an operation behind its
operands, without parentheses: `1 2 3 * +`.
-/

namespace Lox

/-- A head and its operands in parentheses, with blanks between them. -/
def parenthesized (head : String) (operands : List String) : String :=
  "(" ++ " ".intercalate (head :: operands) ++ ")"

mutual

def Expr.polish : Expr → String
  | .literal value => value.token.text
  | .group inner => parenthesized "group" [inner.polish]
  | .unary op operand _ => parenthesized op.token.text [operand.polish]
  | .binary op left right _ => parenthesized op.token.text [left.polish, right.polish]
  | .conditional test consequent alternative =>
    parenthesized "?:" [test.polish, consequent.polish, alternative.polish]
  | .var use => use.name
  | .assign target value => parenthesized "=" [target.name, value.polish]
  | .thisRef _ _ => "this"
  | .superRef _ method _ => parenthesized "super" [method]
  | .call callee arguments _ => parenthesized "call" (callee.polish :: Expr.polishAll arguments)
  | .field object name _ => parenthesized "." [object.polish, name]
  | .setField object name value _ => parenthesized ".=" [object.polish, name, value.polish]
  | .array elements => parenthesized "array" (Expr.polishAll elements)
  | .element sequence index _ => parenthesized "[]" [sequence.polish, index.polish]
  | .setElement sequence index value _ =>
    parenthesized "[]=" [sequence.polish, index.polish, value.polish]

def Expr.polishAll : List Expr → List String
  | [] => []
  | e :: es => e.polish :: Expr.polishAll es

end

/-- The Polish form of an optional expression, with a text for its absence. -/
def Expr.polishOr (absent : String) : Option Expr → String
  | none => absent
  | some e => e.polish

mutual

def Stmt.polish : Stmt → String
  | .expr value => parenthesized ";" [value.polish]
  | .print items _ => parenthesized "print" (Expr.polishAll items)
  | .varDecl name initial? _ => parenthesized "var" (name :: Expr.polishAll initial?.toList)
  | .block body => parenthesized "block" (Stmt.polishAll body)
  | .ifElse test consequent none => parenthesized "if" [test.polish, consequent.polish]
  | .ifElse test consequent (some alternative) =>
    parenthesized "if" [test.polish, consequent.polish, alternative.polish]
  | .whileLoop test body => parenthesized "while" [test.polish, body.polish]
  | .forLoop none test? step? body =>
    parenthesized "for" ["nil", Expr.polishOr "nil" test?, Expr.polishOr "nil" step?, body.polish]
  | .forLoop (some initial) test? step? body =>
    parenthesized "for"
      [initial.polish, Expr.polishOr "nil" test?, Expr.polishOr "nil" step?, body.polish]
  | .breakLoop => parenthesized "break" []
  | .continueLoop => parenthesized "continue" []
  | .funDecl decl => decl.polish
  | .returnValue value? _ => parenthesized "return" (Expr.polishAll value?.toList)
  | .classDecl name none methods _ => parenthesized "class" (name :: FunctionDecl.polishAll methods)
  | .classDecl name (some superclass) methods _ =>
    parenthesized "class" (name :: "<" :: superclass.name :: FunctionDecl.polishAll methods)

/-- The Polish form of a function: its name, its parameters in parentheses, and its body. -/
def FunctionDecl.polish : FunctionDecl → String
  | { name, params, body, line := _ } =>
    parenthesized "fun" (name :: ("(" ++ " ".intercalate params ++ ")") :: Stmt.polishAll body)

def Stmt.polishAll : List Stmt → List String
  | [] => []
  | s :: ss => s.polish :: Stmt.polishAll ss

def FunctionDecl.polishAll : List FunctionDecl → List String
  | [] => []
  | f :: fs => f.polish :: FunctionDecl.polishAll fs

end

/-- The Polish forms of statements, a line each. -/
def Stmt.dump (program : List Stmt) : String :=
  String.join (program.map fun s => s.polish ++ "\n")

/-- The word of a unary operation in reverse Polish form, where minus is taken by subtraction. -/
def UnaryOp.reverseWord : UnaryOp → String
  | .negate => "~"
  | .not => "!"

mutual

/-- The words of the reverse Polish form.  Groups leave no word. -/
def Expr.reverseWords : Expr → List String
  | .literal value => [value.token.text]
  | .group inner => inner.reverseWords
  | .unary op operand _ => operand.reverseWords ++ [op.reverseWord]
  | .binary op left right _ => left.reverseWords ++ right.reverseWords ++ [op.token.text]
  | .conditional test consequent alternative =>
    test.reverseWords ++ consequent.reverseWords ++ alternative.reverseWords ++ ["?"]
  | .var use => [use.name]
  | .assign target value => target.name :: value.reverseWords ++ ["="]
  | .thisRef _ _ => ["this"]
  | .superRef _ method _ => [method, "super"]
  | .call callee arguments _ => callee.reverseWords ++ Expr.reverseWordsAll arguments ++ ["call"]
  | .field object name _ => object.reverseWords ++ [name, "."]
  | .setField object name value _ => object.reverseWords ++ name :: value.reverseWords ++ [".="]
  | .array elements => Expr.reverseWordsAll elements ++ ["array"]
  | .element sequence index _ => sequence.reverseWords ++ index.reverseWords ++ ["[]"]
  | .setElement sequence index value _ =>
    sequence.reverseWords ++ index.reverseWords ++ value.reverseWords ++ ["[]="]

def Expr.reverseWordsAll : List Expr → List String
  | [] => []
  | e :: es => e.reverseWords ++ Expr.reverseWordsAll es

end

def Expr.reversePolish (e : Expr) : String :=
  " ".intercalate e.reverseWords

/-- The reverse Polish forms of the expressions that a simple statement holds. -/
def Stmt.reversePolish : Stmt → List String
  | .expr value => [value.reversePolish]
  | .print items _ => items.map Expr.reversePolish
  | .varDecl _ initial? _ => initial?.toList.map Expr.reversePolish
  | _ => []

end Lox
