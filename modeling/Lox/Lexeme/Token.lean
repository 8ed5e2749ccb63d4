import Lox.Number.Text

/-!
# Tokens

A token is an operator or punctuation mark, a keyword, a name, a literal, or the end of the input.
`Token.text` gives the spelling of a token; a name spelled like a keyword is that keyword.
-/

namespace Lox

inductive Mark
  | plus | minus | star | slash
  | leftParen | rightParen | leftCurly | rightCurly | leftSquare | rightSquare
  | equal | equalEqual | bang | bangEqual | less | lessEqual | greater | greaterEqual
  | semicolon | comma | dot | question | colon
deriving DecidableEq, Repr

def Mark.spelling : Mark → String
  | .plus => "+"
  | .minus => "-"
  | .star => "*"
  | .slash => "/"
  | .leftParen => "("
  | .rightParen => ")"
  | .leftCurly => "\x7b"
  | .rightCurly => "\x7d"
  | .leftSquare => "["
  | .rightSquare => "]"
  | .equal => "="
  | .equalEqual => "=="
  | .bang => "!"
  | .bangEqual => "!="
  | .less => "<"
  | .lessEqual => "<="
  | .greater => ">"
  | .greaterEqual => ">="
  | .semicolon => ";"
  | .comma => ","
  | .dot => "."
  | .question => "?"
  | .colon => ":"

def Mark.ofChar? : Char → Option Mark
  | '+' => some .plus
  | '-' => some .minus
  | '*' => some .star
  | '/' => some .slash
  | '(' => some .leftParen
  | ')' => some .rightParen
  | '\x7b' => some .leftCurly
  | '\x7d' => some .rightCurly
  | '[' => some .leftSquare
  | ']' => some .rightSquare
  | '=' => some .equal
  | '!' => some .bang
  | '<' => some .less
  | '>' => some .greater
  | ';' => some .semicolon
  | ',' => some .comma
  | '.' => some .dot
  | '?' => some .question
  | ':' => some .colon
  | _ => none

/-- The mark that an equals sign makes of the mark in front of it. -/
def Mark.withEqual? : Mark → Option Mark
  | .equal => some .equalEqual
  | .bang => some .bangEqual
  | .less => some .lessEqual
  | .greater => some .greaterEqual
  | _ => none

/-- Names that have a meaning of their own. -/
inductive Keyword
  | andWord | breakWord | classWord | continueWord | elseWord | falseWord | forWord | funWord | ifWord
  | nilWord | orWord | printWord | returnWord | superWord | thisWord | trueWord | varWord | whileWord
deriving DecidableEq, Repr

def Keyword.spelling : Keyword → String
  | .andWord => "and"
  | .breakWord => "break"
  | .classWord => "class"
  | .continueWord => "continue"
  | .elseWord => "else"
  | .falseWord => "false"
  | .forWord => "for"
  | .funWord => "fun"
  | .ifWord => "if"
  | .nilWord => "nil"
  | .orWord => "or"
  | .printWord => "print"
  | .returnWord => "return"
  | .superWord => "super"
  | .thisWord => "this"
  | .trueWord => "true"
  | .varWord => "var"
  | .whileWord => "while"

def Keyword.all : List Keyword :=
  [.andWord, .breakWord, .classWord, .continueWord, .elseWord, .falseWord, .forWord, .funWord,
   .ifWord, .nilWord, .orWord, .printWord, .returnWord, .superWord, .thisWord, .trueWord, .varWord,
   .whileWord]

def Keyword.ofSpelling? (word : String) : Option Keyword :=
  Keyword.all.find? fun k => k.spelling = word

/-- The words of a program. -/
inductive Token
  | mark (mark : Mark)
  | keyword (keyword : Keyword)
  | identifier (name : String)
  | number (value : Float)
  | string (contents : String)
  | endOfInput
deriving DecidableEq

/-- A word is a keyword if it is spelled like one, and a name if not. -/
def Token.ofWord (word : String) : Token :=
  match Keyword.ofSpelling? word with
  | some k => .keyword k
  | none => .identifier word

/-- The spelling of a token.  Numbers have their numeral, and string literals their quotes. -/
def Token.text : Token → String
  | .mark m => m.spelling
  | .keyword k => k.spelling
  | .identifier name => name
  | .number value => Number.text value
  | .string contents => "\"" ++ contents ++ "\""
  | .endOfInput => "EOF"

/-- A token and the line on which it ends. -/
structure Located where
  token : Token
  line : Nat
deriving DecidableEq

/-! ### Words -/

theorem Keyword.mem_all (k : Keyword) : k ∈ Keyword.all := by
  cases k <;> decide

theorem Keyword.ofSpelling?_spelling (k : Keyword) : Keyword.ofSpelling? k.spelling = some k := by
  cases k <;> decide

theorem Keyword.ofSpelling?_eq_some_iff {word : String} {k : Keyword} :
    Keyword.ofSpelling? word = some k ↔ word = k.spelling := by
  constructor
  · intro h
    have := List.find?_some h
    simpa using (of_decide_eq_true this).symm
  · rintro rfl
    exact k.ofSpelling?_spelling

/-- A word is spelled as it was read. -/
theorem Token.text_ofWord (word : String) : (Token.ofWord word).text = word := by
  unfold Token.ofWord
  split
  · next k h => exact (Keyword.ofSpelling?_eq_some_iff.mp h).symm
  · rfl

end Lox
