import Lox.Syntax.Program

/-!
# Reading by number

The readers of programs once more, over a place that is a number. A `Reader` holds all of the tokens, the
number of the one that it stands at, and counts of the loops and functions around it. It counts up and
down where a `Cursor` drops tokens and sets depths back, so it can do what a cursor cannot: look up a token
where there is none, or take a count below zero. Either is a crash.

A reader keeps a record besides, which no reading looks at: all places where it has stood, and what became of
each declaration that was asked for.
-/

namespace Lox.Indexed

/-- The reading of one declaration: where it started, where it failed if it did, and where reading went on. -/
structure Call where
  start : Nat
  failure? : Option Nat
  stop : Nat
deriving DecidableEq

structure Reader where
  tokens : List Located
  current : Nat
  nextId : Nat
  loopDepth : Nat
  functionDepth : Nat
  diagnostics : List Diagnostic
  trail : List Nat
  calls : List Call
deriving DecidableEq

/-- What reading a phrase comes to. -/
inductive Outcome (α : Type)
  | ok (value : α) (next : Reader)
  | failed (error : Diagnostic) (next : Reader)
  | crashed
  | starved

/-- Goes on with another reader behind a phrase, whether it was read or not, or crashes if there is none. -/
def Outcome.behind {α : Type} (f : Reader → Option Reader) : Outcome α → Outcome α
  | .ok value next => (f next).elim .crashed (.ok value)
  | .failed error next => (f next).elim .crashed (.failed error)
  | .crashed => .crashed
  | .starved => .starved

/-- The reader behind a phrase, whether it was read or not. -/
def Outcome.next? {α : Type} : Outcome α → Option Reader
  | .ok _ next | .failed _ next => some next
  | .crashed | .starved => none

def Read (α : Type) : Type :=
  Reader → Outcome α

variable {α β : Type}

protected def Read.bind (q : Read α) (f : α → Read β) : Read β :=
  fun r =>
    match q r with
    | .ok value next => f value next
    | .failed error next => .failed error next
    | .crashed => .crashed
    | .starved => .starved

instance : Monad Read where
  pure value := fun r => .ok value r
  bind := Read.bind

def starve : Read α :=
  fun _ => .starved

/-! ### Places and counts -/

def Reader.goTo (r : Reader) (place : Nat) : Reader :=
  { r with current := place, trail := place :: r.trail }

def Reader.report (r : Reader) (d : Diagnostic) : Reader :=
  { r with diagnostics := r.diagnostics ++ [d] }

def Reader.leaveLoop (r : Reader) : Option Reader :=
  if r.loopDepth = 0 then none else some { r with loopDepth := r.loopDepth - 1 }

/-- The loops around a function are counted again behind it. -/
def Reader.leaveFunction (loops : Nat) (r : Reader) : Option Reader :=
  if r.functionDepth = 0 then none
  else some { r with functionDepth := r.functionDepth - 1, loopDepth := loops }

/-- The token with a number. -/
def lookUp (place : Nat) : Read Located :=
  fun r => r.tokens[place]?.elim .crashed fun l => .ok l r

/-- The token here. -/
def spot : Read Located :=
  fun r => lookUp r.current r

/-- The token passed before, or at the first token that one itself. -/
def previous : Read Located :=
  fun r => lookUp (r.current - 1) r

def stepOn : Read Unit :=
  fun r => .ok () (r.goTo (r.current + 1))

def stepBack : Read Unit :=
  fun r => if r.current = 0 then .crashed else .ok () (r.goTo (r.current - 1))

/-! ### Tokens -/

def peek : Read Token := do
  let l ← spot
  return l.token

/-- Gives the token here and goes on to the next one, but not past the end of the input. -/
def advance : Read Located := do
  let l ← spot
  if l.token = .endOfInput then return l
  else
    stepOn
    return l

def failAt (l : Located) (error : StaticError) : Read α :=
  fun r => .failed (.at l error) r

def report (l : Located) (error : StaticError) : Read Unit :=
  fun r => .ok () (r.report (.at l error))

def acceptIf (wanted : Token → Bool) : Read Bool := do
  if wanted (← peek) then
    let _ ← advance
    return true
  else return false

def accept (token : Token) : Read Bool :=
  acceptIf fun found => found = token

def acceptEither (first second : Token) : Read Bool :=
  acceptIf fun found => found = first || found = second

def expect (token : Token) : Read Unit := do
  let l ← spot
  if l.token = token then
    let _ ← advance
    return ()
  else failAt l (.unexpectedToken l.token token)

def identifier : Read (String × Nat) := do
  let l ← spot
  match l.token with
  | .identifier name =>
    let _ ← advance
    return (name, l.line)
  | _ => failAt l .expectedIdentifier

def fresh : Read Nat :=
  fun r => .ok r.nextId { r with nextId := r.nextId + 1 }

def loopDepth : Read Nat :=
  fun r => .ok r.loopDepth r

def functionDepth : Read Nat :=
  fun r => .ok r.functionDepth r

def inLoop (q : Read α) : Read α :=
  fun r => (q { r with loopDepth := r.loopDepth + 1 }).behind Reader.leaveLoop

def inFunction (q : Read α) : Read α :=
  fun r => (q { r with loopDepth := 0, functionDepth := r.functionDepth + 1 }).behind
    (Reader.leaveFunction r.loopDepth)

def braced (q : Read α) : Read α := do
  expect (.mark .leftCurly)
  let value ← q
  expect (.mark .rightCurly)
  return value

/-! ### Recovery -/

/-- Passes tokens up to the probable start of the next statement. -/
def pass : Nat → Read Unit
  | 0 => starve
  | n + 1 => do
    let l ← spot
    if l.token = .endOfInput then return ()
    else if (← previous).token = .mark .semicolon then return ()
    else if l.token.startsStatement then return ()
    else
      let _ ← advance
      pass n

/-- Passes the token here and goes on to the next statement. -/
def synchronize : Read Unit :=
  fun r => (do let _ ← advance; pass r.tokens.length) r

def record (call : Call) : Read Unit :=
  fun r => .ok () { r with calls := call :: r.calls }

/-- Reads a declaration. If that fails, its error is reported and reading resumes at the next statement. -/
def recover (q : Read α) : Read (Option α) :=
  fun r =>
    match q r with
    | .ok value next => (do record ⟨r.current, none, next.current⟩; return some value) next
    | .failed error next => (do
        synchronize
        let stop ← fun last => .ok last.current last
        record ⟨r.current, some next.current, stop⟩
        return none) (next.report error)
    | .crashed => .crashed
    | .starved => .starved

/-! ### Expressions -/

mutual

def exprAt : Nat → Level → Read Expr
  | 0, _ => starve
  | n + 1, .assignment => do
    let target ← exprAt n .conditional
    if (← peek) = .mark .equal then
      let equal ← advance
      let value ← exprAt n .assignment
      match target.assigned? value with
      | some assignment => return assignment
      | none =>
        report equal .invalidAssignmentTarget
        return target
    else return target
  | n + 1, .conditional => do
    let test ← exprAt n .or
    if ← accept (.mark .question) then
      let consequent ← exprAt n .assignment
      expect (.mark .colon)
      let alternative ← exprAt n .conditional
      return .conditional test consequent alternative
    else return test
  | n + 1, .unary => do
    match UnaryOp.ofToken? (← peek) with
    | some op =>
      let l ← advance
      let operand ← exprAt n .unary
      return .unary op operand l.line
    | none => exprAt n .suffix
  | n + 1, .suffix => do
    let object ← exprAt n .primary
    suffixesOf n object
  | n + 1, .primary => primary n
  | n + 1, level => do
    let left ← exprAt n level.tighter
    operationsOn n level left

def operationsOn : Nat → Level → Expr → Read Expr
  | 0, _, _ => starve
  | n + 1, level, left => do
    match level.operator? (← peek) with
    | some op =>
      let l ← advance
      let right ← exprAt n level.tighter
      operationsOn n level (.binary op left right l.line)
    | none => return left

def suffixesOf : Nat → Expr → Read Expr
  | 0, _ => starve
  | n + 1, object => do
    match ← peek with
    | .mark .leftParen =>
      let l ← advance
      let arguments ← items n (.mark .rightParen)
      suffixesOf n (.call object arguments l.line)
    | .mark .dot =>
      let _ ← advance
      let (name, line) ← identifier
      suffixesOf n (.field object name line)
    | .mark .leftSquare =>
      let l ← advance
      let index ← exprAt n .comma
      expect (.mark .rightSquare)
      suffixesOf n (.element object index l.line)
    | _ => return object

def items : Nat → Token → Read (List Expr)
  | 0, _ => starve
  | n + 1, closing => do
    if ← accept closing then return []
    else
      let first ← exprAt n .assignment
      let others ← moreItems n closing
      return first :: others

def moreItems : Nat → Token → Read (List Expr)
  | 0, _ => starve
  | n + 1, closing => do
    if ← accept (.mark .comma) then
      let first ← exprAt n .assignment
      let others ← moreItems n closing
      return first :: others
    else
      expect closing
      return []

/-- The token here is taken at once, and given back if it starts no expression. -/
def primary : Nat → Read Expr
  | 0 => starve
  | n + 1 => do
    let l ← advance
    match Literal.ofToken? l.token with
    | some value => return .literal value
    | none =>
      match l.token with
      | .identifier name =>
        let id ← fresh
        return .var ⟨id, name, l.line⟩
      | .keyword .thisWord =>
        let id ← fresh
        return .thisRef id l.line
      | .keyword .superWord =>
        expect (.mark .dot)
        let (method, _) ← identifier
        let id ← fresh
        return .superRef id method l.line
      | .mark .leftParen =>
        let inner ← exprAt n .comma
        expect (.mark .rightParen)
        return .group inner
      | .mark .leftSquare =>
        let elements ← items n (.mark .rightSquare)
        return .array elements
      | _ =>
        if l.token ≠ .endOfInput then stepBack
        failAt l .expectedExpression

end

/-! ### Statements -/

def varDecl (n : Nat) : Read Stmt := do
  let (name, line) ← identifier
  if ← accept (.mark .equal) then
    let initial ← exprAt n .comma
    expect (.mark .semicolon)
    return .varDecl name (some initial) line
  else
    expect (.mark .semicolon)
    return .varDecl name none line

def optionalExpr (n : Nat) (closing : Token) : Read (Option Expr) := do
  if ← accept closing then return none
  else
    let value ← exprAt n .comma
    expect closing
    return some value

def parenExpr (n : Nat) : Read Expr := do
  expect (.mark .leftParen)
  let value ← exprAt n .comma
  expect (.mark .rightParen)
  return value

def exprStmt (n : Nat) : Read Stmt := do
  let value ← exprAt n .comma
  expect (.mark .semicolon)
  return .expr value

def forInitial (n : Nat) : Read (Option Stmt) := do
  if ← accept (.mark .semicolon) then return none
  else if ← accept (.keyword .varWord) then
    let initial ← varDecl n
    return some initial
  else
    let initial ← exprStmt n
    return some initial

def moreParams : Nat → Read (List String)
  | 0 => starve
  | n + 1 => do
    if ← accept (.mark .comma) then
      let (name, _) ← identifier
      let others ← moreParams n
      return name :: others
    else
      expect (.mark .rightParen)
      return []

def params (n : Nat) : Read (List String) := do
  expect (.mark .leftParen)
  if ← accept (.mark .rightParen) then return []
  else
    let (name, _) ← identifier
    let others ← moreParams n
    return name :: others

def superclass : Read (Option Use) := do
  if ← acceptEither (.mark .less) (.mark .colon) then
    let (name, line) ← identifier
    let id ← fresh
    return some ⟨id, name, line⟩
  else return none

def takeJump (depth : Read Nat) (error : StaticError) : Read Located := do
  let l ← advance
  if (← depth) = 0 then
    report l error
    return l
  else return l

def atBlockEnd : Read Bool := do
  let token ← peek
  return token = .mark .rightCurly || token = .endOfInput

mutual

def declaration : Nat → Read (Option Stmt)
  | 0 => starve
  | n + 1 => recover do
    match ← peek with
    | .keyword .classWord =>
      let _ ← advance
      let (name, line) ← identifier
      let superclass? ← superclass
      let methods ← braced (methods n)
      return .classDecl name superclass? methods line
    | .keyword .funWord =>
      let _ ← advance
      let decl ← function n
      return .funDecl decl
    | .keyword .varWord =>
      let _ ← advance
      varDecl n
    | _ => statement n

def statement : Nat → Read Stmt
  | 0 => starve
  | n + 1 => do
    match ← peek with
    | .keyword .printWord =>
      let l ← advance
      let first ← exprAt n .assignment
      let others ← moreItems n (.mark .semicolon)
      return .print (first :: others) l.line
    | .mark .leftCurly =>
      let body ← braced (declarations n)
      return .block body
    | .keyword .ifWord =>
      let _ ← advance
      let test ← parenExpr n
      let consequent ← statement n
      if ← accept (.keyword .elseWord) then
        let alternative ← statement n
        return .ifElse test consequent (some alternative)
      else return .ifElse test consequent none
    | .keyword .whileWord =>
      let _ ← advance
      let test ← parenExpr n
      let body ← inLoop (statement n)
      return .whileLoop test body
    | .keyword .forWord =>
      let _ ← advance
      expect (.mark .leftParen)
      let initial? ← forInitial n
      let test? ← optionalExpr n (.mark .semicolon)
      let step? ← optionalExpr n (.mark .rightParen)
      let body ← inLoop (statement n)
      return .forLoop initial? test? step? body
    | .keyword .breakWord =>
      let _ ← takeJump loopDepth .breakOutsideLoop
      expect (.mark .semicolon)
      return .breakLoop
    | .keyword .continueWord =>
      let _ ← takeJump loopDepth .continueOutsideLoop
      expect (.mark .semicolon)
      return .continueLoop
    | .keyword .returnWord =>
      let l ← takeJump functionDepth .returnOutsideFunction
      let value? ← optionalExpr n (.mark .semicolon)
      return .returnValue value? l.line
    | _ => exprStmt n

def declarations : Nat → Read (List Stmt)
  | 0 => starve
  | n + 1 => do
    if ← atBlockEnd then return []
    else
      let first? ← declaration n
      let others ← declarations n
      return first?.toList ++ others

def function : Nat → Read FunctionDecl
  | 0 => starve
  | n + 1 => do
    let (name, line) ← identifier
    let params ← params n
    let body ← inFunction (braced (declarations n))
    return ⟨name, params, body, line⟩

def methods : Nat → Read (List FunctionDecl)
  | 0 => starve
  | n + 1 => do
    if ← atBlockEnd then return []
    else
      let first ← function n
      let others ← methods n
      return first :: others

end

def program : Nat → Read (List Stmt)
  | 0 => starve
  | n + 1 => do
    if (← peek) = .endOfInput then return []
    else
      let first? ← declaration n
      let others ← program n
      return first?.toList ++ others

/-! ### Whole programs -/

def Reader.start (nextId : Nat) (tokens : List Located) : Reader :=
  ⟨closed tokens, 0, nextId, 0, 0, [], [0], []⟩

/-- Reads a program from its first token on. -/
def run (nextId : Nat) (tokens : List Located) : Outcome (List Stmt) :=
  program (depthFor tokens) (.start nextId tokens)

end Lox.Indexed
