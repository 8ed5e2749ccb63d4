import Lox.Session

/-!
# The command line

With files, the shell runs them in one session, in order, and stops at the first one that fails.
Without files it prompts for lines and runs each of them, whether others failed or not.  Input comes
as bytes, and a text must be UTF-8.
-/

namespace Lox

/-- What the shell wrote, and its exit code. -/
structure ShellResult where
  stdout : ByteArray
  stderr : String
  exit : Nat

/-- What was written before, in front of a result. -/
def ShellResult.after (stdout : ByteArray) (stderr : String) (r : ShellResult) : ShellResult :=
  { r with stdout := stdout ++ r.stdout, stderr := stderr ++ r.stderr }

/-- A named file and its bytes; none if there is no such file. -/
structure SourceFile where
  name : String
  contents? : Option ByteArray

/-- The exit code for an outcome in file mode. -/
def Outcome.exitCode : Outcome → Nat
  | .finished => 0
  | .rejected _ => 65
  | .faulted _ | .starved => 70

/-- Why there is no text to run. -/
inductive InputError
  | missing
  | notUtf8
deriving DecidableEq, Repr

def InputError.message : InputError → String
  | .missing => "No such file or directory (os error 2)"
  | .notUtf8 => "stream did not contain valid UTF-8"

/-- The text that bytes encode. -/
def decodeText (bytes : ByteArray) : Except InputError String :=
  match String.fromUTF8? bytes with
  | some source => .ok source
  | none => .error .notUtf8

/-- The text of a file. -/
def SourceFile.text (file : SourceFile) : Except InputError String :=
  match file.contents? with
  | some bytes => decodeText bytes
  | none => .error .missing

namespace Shell

/-- Runs a text in a session, or writes its Polish form.  Gives what goes to the standard output, how
it ended, and the session after it. -/
def runText (n : Nat) (printAst : Bool) (s : Session) (source : String) :
    ByteArray × Outcome × Session :=
  if printAst then
    match s.dump source with
    | (.ok text, next) => (text.toUTF8, .finished, next)
    | (.error diagnostics, next) => (.empty, .rejected diagnostics, next)
  else
    let (outcome, next) := s.eval n source
    (next.printedSince s.printed, outcome, next)

/-- What is said about a file that cannot be read. -/
def unreadableFile (name : String) (error : InputError) : String :=
  "Error: failed to read " ++ name ++ "\n\nCaused by:\n    " ++ error.message ++ "\n"

/-- What is said about a line that cannot be read. -/
def unreadableLine (error : InputError) : String :=
  "Error: " ++ error.message ++ "\n"

/-- Runs files in a session until one fails. -/
def runFiles (n : Nat) (printAst : Bool) : Session → List SourceFile → ShellResult
  | _, [] => ⟨.empty, "", 0⟩
  | s, file :: rest =>
    match file.text with
    | .error error => ⟨.empty, unreadableFile file.name error, 1⟩
    | .ok source =>
      let (stdout, outcome, next) := runText n printAst s source
      match outcome.message? with
      | none => (runFiles n printAst next rest).after stdout ""
      | some message => ⟨stdout, message ++ "\n", outcome.exitCode⟩

/-- What is written before each line is read. -/
def prompt : ByteArray :=
  "> ".toUTF8

/-- The lines of an input, each with its line feed.  A rest without one is a line too. -/
def lines : List UInt8 → List (List UInt8)
  | [] => []
  | b :: bs =>
    if b = 10 then [b] :: lines bs
    else
      match lines bs with
      | [] => [[b]]
      | line :: others => (b :: line) :: others

/-- Runs a line of the prompt.  Gives what goes to both outputs, and the session after it. -/
def runLine (n : Nat) (printAst : Bool) (s : Session) (line : ByteArray) :
    Except InputError (ByteArray × String × Session) :=
  (decodeText line).map fun source =>
    let (stdout, outcome, next) := runText n printAst s source
    (stdout, (outcome.message?.map (· ++ "\n")).getD "", next)

/-- Prompts for lines and runs them. -/
def runLines (n : Nat) (printAst : Bool) : Session → List ByteArray → ShellResult
  | _, [] => ⟨prompt, "", 0⟩
  | s, line :: rest =>
    match runLine n printAst s line with
    | .error error => ⟨prompt, unreadableLine error, 1⟩
    | .ok (stdout, stderr, next) =>
      (runLines n printAst next rest).after (prompt ++ stdout) stderr

/-- The shell on files, or else on lines of standard input. -/
def run (n : Nat) (printAst : Bool) (files : List SourceFile) (stdin : List UInt8) : ShellResult :=
  match files with
  | [] => runLines n printAst (.start none) ((lines stdin).map fun line => ⟨line.toArray⟩)
  | files => runFiles n printAst (.start none) files

/-- The recursion depth that programs are granted. -/
def depth : Nat :=
  Nat.pow 2 60

end Shell

end Lox
