import Lox.Lexeme.Token

/-!
# Diagnostics

What can be wrong with a program before it runs, and where.  `Diagnostic.render` writes a diagnostic
as a line of text.
-/

namespace Lox

inductive StaticError
  | badCharacter (char : Char)
  | unterminatedString
  | unterminatedComment
  | unexpectedToken (found expected : Token)
  | expectedExpression
  | expectedIdentifier
  | invalidAssignmentTarget
  | breakOutsideLoop
  | continueOutsideLoop
  | returnOutsideFunction
  | ownInitializer (name : String)
  | alreadyDeclared (name : String)
  | returnFromInitializer
  | thisOutsideClass
  | superOutsideSubclass
  | inheritFromSelf
deriving DecidableEq

def quoted (text : String) : String :=
  "'" ++ text ++ "'"

def StaticError.message : StaticError → String
  | .badCharacter c => "unexpected character: " ++ c.toString
  | .unterminatedString => "unterminated string"
  | .unterminatedComment => "unterminated block comment"
  | .unexpectedToken found expected =>
    "unexpected token " ++ quoted found.text ++ ", expected " ++ quoted expected.text
  | .expectedExpression => "expected expression"
  | .expectedIdentifier => "expected identifier"
  | .invalidAssignmentTarget => "invalid assignment target"
  | .breakOutsideLoop => "'break' outside of a loop"
  | .continueOutsideLoop => "'continue' outside of a loop"
  | .returnOutsideFunction => "'return' outside of a function"
  | .ownInitializer name => "cannot read local variable " ++ quoted name ++ " in its own initializer"
  | .alreadyDeclared name => "variable " ++ quoted name ++ " already declared in this scope"
  | .returnFromInitializer => "cannot return a value from an initializer"
  | .thisOutsideClass => "'this' cannot be used outside of a class method"
  | .superOutsideSubclass => "'super' cannot be used outside of a subclass method"
  | .inheritFromSelf => "a class cannot inherit from itself"

/-- An error, its line, and the token at which it was seen if it was seen at one. -/
structure Diagnostic where
  line : Nat
  token? : Option Token
  error : StaticError
deriving DecidableEq

def Diagnostic.onLine (line : Nat) (error : StaticError) : Diagnostic :=
  ⟨line, none, error⟩

def Diagnostic.at (spot : Located) (error : StaticError) : Diagnostic :=
  ⟨spot.line, some spot.token, error⟩

/-- The place of a token in a message: `end` for the end of the input, else its quoted spelling. -/
def Token.place : Token → String
  | .endOfInput => "end"
  | token => quoted token.text

/-- The place of a diagnostic within its line, if it has one. -/
def Diagnostic.place? (d : Diagnostic) : Option String :=
  d.token?.map Token.place

def Diagnostic.render (d : Diagnostic) : String :=
  let place := match d.place? with
    | none => ""
    | some place => " at " ++ place
  "[line " ++ toString d.line ++ "] error" ++ place ++ ": " ++ d.error.message

def Diagnostic.renderAll (ds : List Diagnostic) : String :=
  "\n".intercalate (ds.map Diagnostic.render)

end Lox
