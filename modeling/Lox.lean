import Lox.Main
import Lox.Proofs.Syntax.Grammar
import Lox.Proofs.Syntax.Progress
import Lox.Proofs.Syntax.Depth
import Lox.Proofs.Syntax.Pins
import Lox.Proofs.Syntax.Soundness
import Lox.Proofs.Syntax.Follow
import Lox.Proofs.Syntax.Completeness
import Lox.Proofs.Scope.Ids
import Lox.Proofs.Scope.Walk
import Lox.Proofs.Scope.Sources
import Lox.Proofs.Scope.Places
import Lox.Proofs.Scope.Receivers
import Lox.Proofs.Scope.Occurrences
import Lox.Proofs.Scope.StaticErrors
import Lox.Proofs.Scope.Restoration
import Lox.Proofs.Machine.Composition
import Lox.Proofs.Machine.Growth
import Lox.Proofs.Machine.Breakpoints
import Lox.Proofs.Machine.Limits
import Lox.Proofs.Machine.Lineage
import Lox.Proofs.Machine.Objects
import Lox.Proofs.Machine.Ownership
import Lox.Proofs.Machine.Encapsulation
import Lox.Proofs.Machine.Persistence
import Lox.Proofs.Machine.Presence
import Lox.Proofs.Machine.Scoping
import Lox.Proofs.Machine.ScopeSafety
import Lox.Proofs.Machine.Jumps
import Lox.Proofs.Machine.Rendering
import Lox.Proofs.Machine.Calls
import Lox.Proofs.Number.Exact
import Lox.Proofs.Machine.Bounds
import Lox.Proofs.Machine.Failures
import Lox.Proofs.Session.Points
import Lox.Proofs.Session.Scopes
import Lox.Proofs.Session.ControlFlow
import Lox.Proofs.Session.Ids
import Lox.Proofs.Session.Persistence
import Lox.Proofs.Session.Receivers
import Lox.Proofs.Session.Initializers
import Lox.Proofs.Syntax.Relabel
import Lox.Proofs.Syntax.Natural
import Lox.Proofs.Scope.Relabel
import Lox.Proofs.Machine.Relabel
import Lox.Proofs.Session.Images
import Lox.Proofs.Session.Traceless
import Lox.Proofs.Session.CommandLine
import Lox.Proofs.Session.Lines
import Lox.Proofs.Session.Limits
import Lox.Proofs.Lexeme.Pieces
import Lox.Proofs.Lexeme.Lexemes
import Lox.Proofs.Lexeme.Splitting
import Lox.Proofs.Syntax.Continuation
import Lox.Proofs.Session.Concatenation
import Lox.Proofs.Scope.Renaming
import Lox.Proofs.Scope.Mirror
import Lox.Proofs.Machine.Layout
import Lox.Proofs.Machine.Renaming
import Lox.Proofs.Session.Renaming
import Lox.Proofs.Number.Numerals
import Lox.Proofs.Lexeme.Respelling
import Lox.Proofs.Syntax.Forms
import Lox.Proofs.Syntax.Unpolish
import Lox.Proofs.Session.Dump
import Lox.Proofs.Syntax.Lowering
import Lox.Proofs.Syntax.LoweredTokens
import Lox.Proofs.Scope.LoweredErrors
import Lox.Proofs.Scope.Deepening
import Lox.Proofs.Machine.Framing
import Lox.Proofs.Machine.Lowering
import Lox.Proofs.Session.Lowering
import Lox.Proofs.Syntax.Positions
import Lox.Proofs.Syntax.Recovery
import Lox.Proofs.Syntax.Alongside
import Lox.Proofs.Syntax.Misplaced
import Lox.Proofs.Syntax.Chunks
import Lox.Proofs.Syntax.Origins
import Lox.Proofs.Syntax.ReversePolish
import Lox.Proofs.Symbols.Interning
import Lox.Proofs.Symbols.Keyed
import Lox.Proofs.Symbols.Programs
