import Lox.Shell

/-!
# The program

Reads the arguments, the files and the standard input, and hands them to the shell.
-/

open Lox

/-- The bytes of a file, if it can be read. -/
def readSource (name : String) : IO SourceFile := do
  try
    return ⟨name, some (← IO.FS.readBinFile name)⟩
  catch _ => return ⟨name, none⟩

/-- The next line of the standard input with its line feed; no bytes at its end. -/
partial def readLine (stdin : IO.FS.Stream) (line : ByteArray) : IO ByteArray := do
  let byte ← stdin.read 1
  if byte.isEmpty then return line
  else if byte.get! 0 = 10 then return line ++ byte
  else readLine stdin (line ++ byte)

/-- Prompts for lines until the input ends. -/
partial def promptLoop (printAst : Bool) (s : Session) : IO UInt32 := do
  let stdout ← IO.getStdout
  stdout.write Shell.prompt
  stdout.flush
  let line ← readLine (← IO.getStdin) .empty
  if line.isEmpty then return 0
  else
    match Shell.runLine Shell.depth printAst s line with
    | .error error =>
      (← IO.getStderr).putStr (Shell.unreadableLine error)
      return 1
    | .ok (written, errors, next) =>
      stdout.write written
      (← IO.getStderr).putStr errors
      promptLoop printAst next

def main (arguments : List String) : IO UInt32 := do
  let printAst := arguments.contains "--print-ast"
  match arguments.filter (· ≠ "--print-ast") with
  | [] => promptLoop printAst (.start none)
  | names =>
    let files ← names.mapM readSource
    let result := Shell.run Shell.depth printAst files []
    (← IO.getStdout).write result.stdout
    (← IO.getStderr).putStr result.stderr
    return result.exit.toUInt32
