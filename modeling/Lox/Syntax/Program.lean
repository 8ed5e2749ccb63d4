import Lox.Lexeme.Scan
import Lox.Syntax.Expression

/-!
# Reading programs

`parse` reads the statements of a program.  A statement with an error is reported and dropped, and
reading goes on behind it.
-/

namespace Lox

open Parse

def varDecl (n : Nat) : Parse Stmt := do
  let (name, line) ← identifier
  if ← accept (.mark .equal) then
    let initial ← exprAt n .comma
    expect (.mark .semicolon)
    return .varDecl name (some initial) line
  else
    expect (.mark .semicolon)
    return .varDecl name none line

/-- Reads an expression in front of a closing token, if there is one, and the closing token. -/
def optionalExpr (n : Nat) (closing : Token) : Parse (Option Expr) := do
  if ← accept closing then return none
  else
    let value ← exprAt n .comma
    expect closing
    return some value

def parenExpr (n : Nat) : Parse Expr := do
  expect (.mark .leftParen)
  let value ← exprAt n .comma
  expect (.mark .rightParen)
  return value

def exprStmt (n : Nat) : Parse Stmt := do
  let value ← exprAt n .comma
  expect (.mark .semicolon)
  return .expr value

/-- Reads the first clause of a `for`: nothing, a variable declaration or an expression, through its
semicolon. -/
def forInitial (n : Nat) : Parse (Option Stmt) := do
  if ← accept (.mark .semicolon) then return none
  else if ← accept (.keyword .varWord) then
    let initial ← varDecl n
    return some initial
  else
    let initial ← exprStmt n
    return some initial

/-- Reads names between commas through a closing parenthesis, behind the first of them. -/
def moreParams : Nat → Parse (List String)
  | 0 => starve
  | n + 1 => do
    if ← accept (.mark .comma) then
      let (name, _) ← identifier
      let others ← moreParams n
      return name :: others
    else
      expect (.mark .rightParen)
      return []

def params (n : Nat) : Parse (List String) := do
  expect (.mark .leftParen)
  if ← accept (.mark .rightParen) then return []
  else
    let (name, _) ← identifier
    let others ← moreParams n
    return name :: others

/-- Reads the superclass of a class, behind `<` or a colon, if there is one. -/
def superclass : Parse (Option Use) := do
  if ← acceptEither (.mark .less) (.mark .colon) then
    let (name, line) ← identifier
    let id ← fresh
    return some ⟨id, name, line⟩
  else return none

/-- Takes the keyword of a jump.  At depth 0 there is nothing to jump out of, which is reported and
stops nothing. -/
def takeJump (depth : Parse Nat) (error : StaticError) : Parse Located := do
  let spot ← take
  if (← depth) = 0 then
    report spot error
    return spot
  else return spot

/-- Whether the block or input around the cursor ends here. -/
def atBlockEnd : Parse Bool := do
  let token ← peek
  return token = .mark .rightCurly || token = .endOfInput

mutual

/-- Reads a statement or declaration, and drops it if there is an error in it. -/
def declaration : Nat → Parse (Option Stmt)
  | 0 => starve
  | n + 1 => recover do
    match ← peek with
    | .keyword .classWord =>
      let _ ← take
      let (name, line) ← identifier
      let superclass? ← superclass
      let methods ← braced (methods n)
      return .classDecl name superclass? methods line
    | .keyword .funWord =>
      let _ ← take
      let decl ← function n
      return .funDecl decl
    | .keyword .varWord =>
      let _ ← take
      varDecl n
    | _ => statement n

def statement : Nat → Parse Stmt
  | 0 => starve
  | n + 1 => do
    match ← peek with
    | .keyword .printWord =>
      let spot ← take
      let first ← exprAt n .assignment
      let others ← moreItems n (.mark .semicolon)
      return .print (first :: others) spot.line
    | .mark .leftCurly =>
      let body ← braced (declarations n)
      return .block body
    | .keyword .ifWord =>
      let _ ← take
      let test ← parenExpr n
      let consequent ← statement n
      if ← accept (.keyword .elseWord) then
        let alternative ← statement n
        return .ifElse test consequent (some alternative)
      else return .ifElse test consequent none
    | .keyword .whileWord =>
      let _ ← take
      let test ← parenExpr n
      let body ← inLoop (statement n)
      return .whileLoop test body
    | .keyword .forWord =>
      let _ ← take
      expect (.mark .leftParen)
      let initial? ← forInitial n
      let test? ← optionalExpr n (.mark .semicolon)
      let step? ← optionalExpr n (.mark .rightParen)
      let body ← inLoop (statement n)
      return .forLoop initial? test? step? body
    | .keyword .breakWord =>
      let _ ← takeJump loopDepth .breakOutsideLoop
      expect (.mark .semicolon)
      return .breakLoop
    | .keyword .continueWord =>
      let _ ← takeJump loopDepth .continueOutsideLoop
      expect (.mark .semicolon)
      return .continueLoop
    | .keyword .returnWord =>
      let spot ← takeJump functionDepth .returnOutsideFunction
      let value? ← optionalExpr n (.mark .semicolon)
      return .returnValue value? spot.line
    | _ => exprStmt n

def declarations : Nat → Parse (List Stmt)
  | 0 => starve
  | n + 1 => do
    if ← atBlockEnd then return []
    else
      let first? ← declaration n
      let others ← declarations n
      return first?.toList ++ others

def function : Nat → Parse FunctionDecl
  | 0 => starve
  | n + 1 => do
    let (name, line) ← identifier
    let params ← params n
    let body ← inFunction (braced (declarations n))
    return ⟨name, params, body, line⟩

def methods : Nat → Parse (List FunctionDecl)
  | 0 => starve
  | n + 1 => do
    if ← atBlockEnd then return []
    else
      let first ← function n
      let others ← methods n
      return first :: others

end

def program : Nat → Parse (List Stmt)
  | 0 => starve
  | n + 1 => do
    if (← peek) = .endOfInput then return []
    else
      let first? ← declaration n
      let others ← program n
      return first?.toList ++ others

/-! ### Whole programs -/

/-- The statements of a program that are free of errors, the errors of the others, and the first id
not handed out. -/
structure Parsed where
  program : List Stmt
  diagnostics : List Diagnostic
  nextId : Nat

/-- The tokens, ended by the end of the input on their last line. -/
def closed (tokens : List Located) : List Located :=
  match tokens.getLast? with
  | none => [⟨.endOfInput, 1⟩]
  | some last => if last.token = .endOfInput then tokens else tokens ++ [⟨.endOfInput, last.line⟩]

/-- A depth that no program with so many tokens uses up: fewer than 32 steps lie between two tokens. -/
def depthFor (tokens : List Located) : Nat :=
  32 * (tokens.length + 1)

def Cursor.start (nextId : Nat) (tokens : List Located) : Cursor :=
  ⟨closed tokens, nextId, 0, 0, []⟩

/-- Reads a program.  Its ids start at `nextId`. -/
def parse (nextId : Nat) (tokens : List Located) : Parsed :=
  match program (depthFor tokens) (.start nextId tokens) with
  | .ok statements last => ⟨statements, last.diagnostics, last.nextId⟩
  | .failed error last => ⟨[], last.diagnostics ++ [error], last.nextId⟩
  | .starved => ⟨[], [], nextId⟩

/-- Reads a program from its text.  The errors of its tokens come before those of its statements. -/
def parseSource (nextId : Nat) (source : String) : Parsed :=
  let read := scan source
  let parsed := parse nextId read.tokens
  { parsed with diagnostics := read.diagnostics ++ parsed.diagnostics }

end Lox
