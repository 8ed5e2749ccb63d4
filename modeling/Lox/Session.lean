import Lox.Machine.Execution
import Lox.Syntax.Polish
import Lox.Syntax.Program

/-!
# Sessions

A session runs one source text after the other.  Variables, functions and classes of earlier texts
stay visible to later ones.  A text with an error that shows before it runs is not run at all; a fault
ends the run of its text, and what was done before it stays done.
-/

namespace Lox

structure Session where
  nextId : Nat
  /-- The distances of all texts that ran; functions of earlier texts may still be called. -/
  distances : Distances
  machine : Machine

/-- A session in which nothing has run.  All its output may be limited to a number of bytes. -/
def Session.start (limit? : Option Nat) : Session :=
  ⟨0, [], .start limit?⟩

inductive Outcome
  | finished
  | rejected (diagnostics : List Diagnostic)
  | faulted (fault : Fault)
  | starved
deriving DecidableEq

def Outcome.message? : Outcome → Option String
  | .finished => none
  | .rejected diagnostics => some (Diagnostic.renderAll diagnostics)
  | .faulted fault => some fault.render
  | .starved => some "runtime error: depth used up"

namespace Session

/-- Runs a text, to a depth of `n`. -/
def eval (n : Nat) (s : Session) (source : String) : Outcome × Session :=
  let parsed := parseSource s.nextId source
  let resolution := resolve parsed.program
  let s := { s with nextId := parsed.nextId }
  match parsed.diagnostics ++ resolution.diagnostics with
  | [] =>
    let distances := s.distances.merge resolution.distances
    match interpret (evaluator distances n) parsed.program s.machine with
    | .ok _ machine => (.finished, { s with distances, machine })
    | .error (.fault fault) machine => (.faulted fault, { s with distances, machine })
    | .error .starved machine => (.starved, { s with distances, machine })
  | diagnostics => (.rejected diagnostics, s)

/-- The Polish form of a text, a line for each statement, or its errors.  Nothing runs. -/
def dump (s : Session) (source : String) : Except (List Diagnostic) String × Session :=
  let parsed := parseSource s.nextId source
  let s := { s with nextId := parsed.nextId }
  match parsed.diagnostics with
  | [] => (.ok (Stmt.dump parsed.program), s)
  | diagnostics => (.error diagnostics, s)

def printed (s : Session) : Nat :=
  s.machine.output.written.size

/-- The bytes printed since there were `start` of them. -/
def printedSince (s : Session) (start : Nat) : ByteArray :=
  s.machine.output.since start

end Session

end Lox
