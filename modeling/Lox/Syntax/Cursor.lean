import Lox.Diagnostic

/-!
# Reading tokens

A `Cursor` is what is left of the tokens, with the ids handed out so far, the nesting of loops and
functions, and the errors reported.  A `Parse` reads a phrase at a cursor: it succeeds, fails with an
error, or runs out of the recursion depth it was granted.  The end of the input is never passed.
-/

namespace Lox

structure Cursor where
  rest : List Located
  nextId : Nat
  /-- The number of loops around this place within its function. -/
  loops : Nat
  functions : Nat
  diagnostics : List Diagnostic
deriving DecidableEq

/-- The token at the cursor, which is the end of the input if none is left. -/
def Cursor.here (c : Cursor) : Located :=
  c.rest.headD ⟨.endOfInput, 1⟩

/-- The cursor behind the token here.  The end of the input stays where it is. -/
def Cursor.advance (c : Cursor) : Cursor :=
  if c.here.token = .endOfInput then c else { c with rest := c.rest.tail }

def Cursor.report (c : Cursor) (d : Diagnostic) : Cursor :=
  { c with diagnostics := c.diagnostics ++ [d] }

/-- What reading a phrase comes to. -/
inductive Reply (α : Type)
  | ok (value : α) (next : Cursor)
  | failed (error : Diagnostic) (next : Cursor)
  | starved

/-- Sets the nesting behind a phrase, whether it was read or not. -/
def Reply.nest {α : Type} (loops functions : Nat) : Reply α → Reply α
  | .ok value next => .ok value { next with loops := loops, functions := functions }
  | .failed error next => .failed error { next with loops := loops, functions := functions }
  | .starved => .starved

def Parse (α : Type) : Type :=
  Cursor → Reply α

namespace Parse

variable {α β : Type}

@[inline] protected def pure (value : α) : Parse α :=
  fun c => .ok value c

@[inline] protected def bind (p : Parse α) (f : α → Parse β) : Parse β :=
  fun c =>
    match p c with
    | .ok value next => f value next
    | .failed error next => .failed error next
    | .starved => .starved

instance : Monad Parse where
  pure := Parse.pure
  bind := Parse.bind

def starve : Parse α :=
  fun _ => .starved

def fail (error : StaticError) : Parse α :=
  fun c => .failed (.at c.here error) c

/-- Reports an error at a token and goes on. -/
def report (spot : Located) (error : StaticError) : Parse Unit :=
  fun c => .ok () (c.report (.at spot error))

def peek : Parse Token :=
  fun c => .ok c.here.token c

def take : Parse Located :=
  fun c => .ok c.here c.advance

/-- Takes the token here if it is the given one, and says whether it was. -/
def accept (token : Token) : Parse Bool :=
  fun c => if c.here.token = token then .ok true c.advance else .ok false c

def acceptEither (first second : Token) : Parse Bool :=
  fun c =>
    if c.here.token = first ∨ c.here.token = second then .ok true c.advance else .ok false c

def expect (token : Token) : Parse Unit :=
  fun c =>
    if c.here.token = token then .ok () c.advance
    else .failed (.at c.here (.unexpectedToken c.here.token token)) c

def identifier : Parse (String × Nat) :=
  fun c =>
    match c.here.token with
    | .identifier name => .ok (name, c.here.line) c.advance
    | _ => .failed (.at c.here .expectedIdentifier) c

def fresh : Parse Nat :=
  fun c => .ok c.nextId { c with nextId := c.nextId + 1 }

/-- The number of loops around the cursor within its function. -/
def loopDepth : Parse Nat :=
  fun c => .ok c.loops c

def functionDepth : Parse Nat :=
  fun c => .ok c.functions c

/-- Reads a phrase as the body of a loop. -/
def inLoop (p : Parse α) : Parse α :=
  fun c => (p { c with loops := c.loops + 1 }).nest c.loops c.functions

/-- Reads a phrase as the body of a function.  Loops around a function are not around its body. -/
def inFunction (p : Parse α) : Parse α :=
  fun c => (p { c with loops := 0, functions := c.functions + 1 }).nest c.loops c.functions

def braced (p : Parse α) : Parse α := do
  expect (.mark .leftCurly)
  let value ← p
  expect (.mark .rightCurly)
  return value

end Parse

/-! ### Recovery -/

/-- Whether a statement starts with this keyword; recovery stops in front of it. -/
def Token.startsStatement : Token → Bool
  | .keyword .classWord | .keyword .funWord | .keyword .varWord | .keyword .forWord
  | .keyword .ifWord | .keyword .whileWord | .keyword .printWord | .keyword .returnWord => true
  | _ => false

/-- The tokens from the probable start of the next statement on: behind a semicolon, or at a keyword
that starts a statement.  `last` is the token passed before them. -/
def nextStatement (last : Token) : List Located → List Located
  | [] => []
  | t :: rest =>
    if t.token = .endOfInput || last = .mark .semicolon || t.token.startsStatement then t :: rest
    else nextStatement t.token rest

/-- Passes the token here and goes on to the next statement. -/
def Cursor.synchronize (c : Cursor) : Cursor :=
  let next := c.advance
  { next with rest := nextStatement c.here.token next.rest }

/-- Reads a statement.  If that fails, its error is reported and reading resumes at the next
statement. -/
def Parse.recover {α : Type} (p : Parse α) : Parse (Option α) :=
  fun c =>
    match p c with
    | .ok value next => .ok (some value) next
    | .failed error next => .ok none (next.report error).synchronize
    | .starved => .starved

/-! ### Phrases in sequence -/

namespace Parse

variable {α β : Type}

theorem bind_eq_ok {p : Parse α} {f : α → Parse β} {c last : Cursor} {b : β} :
    (p >>= f) c = .ok b last ↔ ∃ a next, p c = .ok a next ∧ f a next = .ok b last := by
  show Parse.bind p f c = _ ↔ _
  unfold Parse.bind
  cases hp : p c with
  | ok a next =>
    constructor
    · intro h
      exact ⟨a, next, rfl, h⟩
    · rintro ⟨a', next', he, h⟩
      simp only [Reply.ok.injEq] at he
      rw [he.1, he.2]
      exact h
  | failed error next => simp
  | starved => simp

theorem bind_eq_failed {p : Parse α} {f : α → Parse β} {c last : Cursor} {e : Diagnostic} :
    (p >>= f) c = .failed e last ↔
      p c = .failed e last ∨ ∃ a next, p c = .ok a next ∧ f a next = .failed e last := by
  show Parse.bind p f c = _ ↔ _
  unfold Parse.bind
  cases hp : p c with
  | ok a next =>
    constructor
    · intro h
      exact Or.inr ⟨a, next, rfl, h⟩
    · rintro (he | ⟨a', next', he, h⟩)
      · exact absurd he (by simp)
      · simp only [Reply.ok.injEq] at he
        rw [he.1, he.2]
        exact h
  | failed error next => simp
  | starved => simp

@[simp] theorem pure_apply (a : α) (c : Cursor) : (Pure.pure a : Parse α) c = .ok a c := rfl

end Parse

/-! ### Reading only goes forward -/

theorem Cursor.advance_suffix (c : Cursor) : c.advance.rest <:+ c.rest := by
  unfold Cursor.advance
  split
  · exact List.suffix_refl _
  · exact List.tail_suffix _

/-- The end of the input is never passed. -/
theorem Cursor.advance_of_end {c : Cursor} (h : c.here.token = .endOfInput) : c.advance = c := by
  simp [Cursor.advance, h]

theorem nextStatement_suffix (last : Token) (ts : List Located) : nextStatement last ts <:+ ts := by
  induction ts generalizing last with
  | nil => exact List.suffix_refl _
  | cons t rest ih =>
    unfold nextStatement
    split
    · exact List.suffix_refl _
    · exact (ih t.token).trans (List.suffix_cons t rest)

theorem Cursor.synchronize_suffix (c : Cursor) : c.synchronize.rest <:+ c.rest :=
  (nextStatement_suffix _ _).trans c.advance_suffix

end Lox
