import Lox.Machine.Fault
import Lox.Machine.Output
import Lox.Machine.Render

/-!
# Steps of a run

A `Run` works on a machine, that is on the heap and the output.  It ends with a value, or it stops
with a fault or because the recursion depth it was granted is used up.  What was done before it
stopped stays done.
-/

namespace Lox

structure Machine where
  heap : Heap
  output : Output

def Machine.start (limit? : Option Nat) : Machine :=
  ⟨.start, .empty limit?⟩

inductive Stop
  | fault (fault : Fault)
  | starved

abbrev Run (α : Type) : Type :=
  EStateM Stop Machine α

/-- How a statement ends: control goes on behind it, leaves the loop around it, goes on with the next
round of the loop, or leaves the function. -/
inductive Flow
  | normal
  | broke
  | continued
  | returned (value : Value)
deriving DecidableEq

namespace Run

variable {α β : Type}

def starve : Run α :=
  throw .starved

def fault (line : Nat) (error : RuntimeError) : Run α :=
  throw (.fault ⟨line, error⟩)

def ofExcept (line : Nat) : Except RuntimeError α → Run α
  | .ok value => pure value
  | .error error => fault line error

def ofOption (line : Nat) (error : RuntimeError) : Option α → Run α
  | some value => pure value
  | none => fault line error

def read (f : Heap → α) : Run α :=
  fun m => .ok (f m.heap) m

def change (f : Heap → Heap) : Run Unit :=
  fun m => .ok () { m with heap := f m.heap }

def make (f : Heap → α × Heap) : Run α :=
  fun m =>
    let (value, heap) := f m.heap
    .ok value { m with heap }

/-- Writes a text and a line feed.  If not all of it fits, that is a fault on a line. -/
def printLine (line : Nat) (text : String) : Run Unit :=
  fun m =>
    let (complete, output) := m.output.write (text ++ "\n").toUTF8
    if complete then .ok () { m with output }
    else .error (.fault ⟨line, .outputFull⟩) { m with output }

def each (f : α → Run β) : List α → Run (List β)
  | [] => pure []
  | a :: as => do
    let first ← f a
    let others ← each f as
    return first :: others

/-- Runs for each element of a list until control does not go on normally. -/
def inOrder (f : α → Run Flow) : List α → Run Flow
  | [] => pure .normal
  | a :: as => do
    match ← f a with
    | .normal => inOrder f as
    | flow => return flow

/-- Runs the rounds of a loop while a test holds, at most `n` of them.  Leaving the loop or going on
with its next round ends here. -/
def rounds : (n : Nat) → (test : Run Bool) → (body : Run Flow) → Run Flow
  | 0, _, _ => starve
  | n + 1, test, body => do
    if ← test then
      match ← body with
      | .normal | .continued => rounds n test body
      | .broke => return .normal
      | .returned value => return .returned value
    else return .normal

end Run

end Lox
