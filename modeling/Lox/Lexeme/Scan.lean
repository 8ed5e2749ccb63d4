import Lox.Diagnostic
import Lox.Lexeme.Segment

/-!
# From text to tokens

The lexemes among the segments of a text are its tokens, the segments that are none its errors.
Both carry the line on which their segment ends.
-/

namespace Lox

/-- The tokens of a text, ended by the end of the input, and the errors found on the way. -/
structure Scan where
  tokens : List Located
  diagnostics : List Diagnostic
deriving DecidableEq

/-- What a segment that ends on `line` adds in front of the scan of the rest. -/
def Scan.add (line : Nat) (kind : SegmentKind) (rest : Scan) : Scan :=
  match kind with
  | .blank | .lineComment | .blockComment => rest
  | .lexeme token => { rest with tokens := ⟨token, line⟩ :: rest.tokens }
  | .stray c => { rest with diagnostics := .onLine line (.badCharacter c) :: rest.diagnostics }
  | .openString => { rest with diagnostics := .onLine line .unterminatedString :: rest.diagnostics }
  | .openComment => { rest with diagnostics := .onLine line .unterminatedComment :: rest.diagnostics }

/-- The scan of segments behind a text that ends on `line`. -/
def Scan.ofSegments (line : Nat) : List Segment → Scan
  | [] => ⟨[⟨.endOfInput, line⟩], []⟩
  | segment :: rest =>
    let line := line + segment.text.count '\n'
    (Scan.ofSegments line rest).add line segment.kind

/-- The scan of a text.  Lines count from 1. -/
def scan (source : String) : Scan :=
  .ofSegments 1 (segments source.toList)

example : (scan "// x\na1 <=").tokens =
    [⟨.identifier "a1", 2⟩, ⟨.mark .lessEqual, 2⟩, ⟨.endOfInput, 2⟩] := by decide +kernel
example : (scan "1.5.x # \"a").diagnostics =
    [.onLine 1 (.badCharacter '#'), .onLine 1 .unterminatedString] := by decide +kernel

end Lox
