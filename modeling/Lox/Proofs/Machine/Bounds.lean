import Lox.Proofs.Machine.Calls
import Lox.Proofs.Number.Exact

/-!
Accesses by number. An index is the place of an element at the moment of the access, and a native function looks at no
more arguments than it has. The evaluator that stops at every access out of bounds is the evaluator.
-/

namespace Lox

open Run

variable {length i : Nat} {v : Value}

/-! ### Indices -/

/-- The tests of an index and its conversion, which are done with doubles, find the whole numbers below the length. -/
theorem elementIndex_eq_ok (small : length < 2 ^ 53) :
    elementIndex length v = .ok i ↔ i < length ∧ ∃ x, v = .number x ∧ Number.toRat? x = some (i : ℚ) := by
  have zero : Number.toRat? 0 = some (0 : ℚ) := Number.toRat?_ofNat (by norm_num)
  have above := Number.toRat?_ofNat small
  constructor
  · intro found
    cases v with
    | number x =>
      rw [elementIndex] at found
      cases whole : Number.integer? x with
      | none =>
        rw [whole] at found
        cases found
      | some k =>
        have value := Number.integer?_eq_some.mp whole
        simp only [whole, Option.isNone_some, Bool.false_eq_true, if_false, Number.lt_exact value zero, ge_iff_le,
          Number.le_exact above value] at found
        split at found
        · cases found
        · next within =>
          obtain ⟨nonneg, below⟩ := not_or.mp within
          have nonneg : 0 ≤ k := by exact_mod_cast not_lt.mp nonneg
          have below : k < length := by exact_mod_cast not_le.mp below
          obtain ⟨n, rfl⟩ := Int.eq_ofNat_of_zero_le nonneg
          have truncated := Number.toUInt64_exact value (by omega)
          cases found
          exact ⟨by omega, x, rfl, truncated ▸ value⟩
    | _ => cases found
  · rintro ⟨within, x, rfl, value⟩
    have whole : Number.integer? x = some (i : ℤ) := Number.integer?_eq_some.mpr value
    have nonneg : ¬x < 0 := by
      rw [Number.lt_exact value zero]
      exact not_lt.mpr i.cast_nonneg
    have below : ¬x ≥ Number.ofNat length := by
      rw [ge_iff_le, Number.le_exact above value]
      exact_mod_cast not_le.mpr within
    rw [elementIndex, whole, if_neg nofun, if_neg (not_or.mpr ⟨nonneg, below⟩),
      Number.toUInt64_exact value (by omega)]

/-! ### Checked accesses -/

/-- Stops if there is no element at a place. Nothing is said of arrays that are too long for exact indices. -/
def checkBounds (panic : Stop) (array : Ref .array) (place : Nat) : Run Unit := do
  let length ← read fun h => (h.elements array).size
  if length < 2 ^ 53 ∧ length ≤ place then throw panic else return ()

def readChecked (panic : Stop) (sequence index : Value) (line : Nat) : Run Value := do
  let (array, place) ← locate sequence index line
  checkBounds panic array place
  read fun h => ((h.elements array)[place]?).getD .nil

def assignChecked (panic : Stop) (sequence index value : Value) (line : Nat) : Run Value := do
  let (array, place) ← locate sequence index line
  checkBounds panic array place
  change (·.setElement array place value)
  return value

/-- The argument at a place, or a stop if there is none. -/
def argumentAt (panic : Stop) (arguments : List Value) (place : Nat) : Run Value :=
  match arguments[place]? with
  | some value => return value
  | none => throw panic

/-- The body of a native function, which looks at its arguments by their numbers. It stops if it does not have as
many as it takes. -/
def Native.runChecked (panic : Stop) (f : Native) (arguments : List Value) (line : Nat) : Run Value :=
  if arguments.length ≠ f.arity then throw panic
  else
    match f with
    | .len => do
      match ← argumentAt panic arguments 0 with
      | .array r =>
        let length ← read fun h => (h.elements r).size
        return .number (Number.ofNat length)
      | _ => fault line (.badArgument .len)
    | .push => do
      match ← argumentAt panic arguments 0 with
      | .array r =>
        let value ← argumentAt panic arguments 1
        change (·.pushElement r value)
        let length ← read fun h => (h.elements r).size
        return .number (Number.ofNat length)
      | _ => fault line (.badArgument .push)

def callChecked (panic : Stop) (invoke : Closure → List Value → Run Value) (callee : Value) (arguments : List Value)
    (line : Nat) : Run Value :=
  match callee with
  | .native f => do
    checkArity f.arity arguments.length line
    f.runChecked panic arguments line
  | _ => call invoke callee arguments line

/-- The value of an expression, with checked accesses. -/
def Evaluator.evalChecked (self : Evaluator) (distances : Distances) (panic : Stop) (frame : Ref .frame) :
    Expr → Run Value
  | .call callee arguments line => do
    let f ← self.expr frame callee
    let vs ← each (self.expr frame) arguments
    callChecked panic self.invoke f vs line
  | .element sequence index line => do
    let s ← self.expr frame sequence
    let i ← self.expr frame index
    readChecked panic s i line
  | .setElement sequence index value line => do
    let s ← self.expr frame sequence
    let i ← self.expr frame index
    let v ← self.expr frame value
    assignChecked panic s i v line
  | e => self.evalExpr distances frame e

/-- The evaluator that stops at every access out of bounds. -/
def checkedEvaluator (distances : Distances) (panic : Stop) : Nat → Evaluator
  | 0 => .starved
  | n + 1 =>
    ⟨fun frame e => (checkedEvaluator distances panic n).evalChecked distances panic frame e,
     fun frame s => (checkedEvaluator distances panic n).execStmt distances n frame s,
     fun closure arguments => (checkedEvaluator distances panic n).invokeClosure closure arguments⟩

/-- A native function does stop that has too few arguments. -/
example (panic : Stop) (line : Nat) (m : Machine) : Native.push.runChecked panic [.nil] line m = .error panic m :=
  rfl

/-! ### No access is out of bounds -/

variable {panic : Stop} {line : Nat}

theorem locate_eq {sequence index : Value} {m : Machine} :
    locate sequence index line m =
      match sequence.array? with
      | none => .error (.fault ⟨line, .notAnArray⟩) m
      | some array =>
        match elementIndex (m.heap.elements array).size index with
        | .error error => .error (.fault ⟨line, error⟩) m
        | .ok place => .ok (array, place) m := by
  unfold locate
  cases sequence.array? with
  | none => rfl
  | some array =>
    change (ofExcept line (elementIndex (m.heap.elements array).size index) >>= fun place => pure (array, place)) m = _
    dsimp only
    cases elementIndex (m.heap.elements array).size index <;> rfl

theorem locate_ok {sequence index : Value} {m m' : Machine} {found : Ref .array × Nat}
    (located : locate sequence index line m = .ok found m') :
    m' = m ∧ elementIndex (m.heap.elements found.1).size index = .ok found.2 := by
  rw [locate_eq] at located
  split at located
  · cases located
  · split at located
    · cases located
    · next place =>
      cases located
      exact ⟨rfl, place⟩

/-- Behind a place that was found, the check of the bounds does nothing. -/
theorem located_checked {α : Type} {sequence index : Value} (access : Ref .array × Nat → Run α) :
    (locate sequence index line >>= fun found => checkBounds panic found.1 found.2 >>= fun _ => access found) =
      locate sequence index line >>= access := by
  funext m
  cases located : locate sequence index line m with
  | error stop m₁ => rw [bind_of_error located, bind_of_error located]
  | ok found m₁ =>
    obtain ⟨rfl, place⟩ := locate_ok located
    have within : ¬((m₁.heap.elements found.1).size < 2 ^ 53 ∧ (m₁.heap.elements found.1).size ≤ found.2) :=
      fun ⟨small, beyond⟩ => Nat.not_lt.mpr beyond ((elementIndex_eq_ok small).mp place).1
    rw [bind_of_ok located, bind_of_ok located]
    have passes : checkBounds panic found.1 found.2 m₁ = .ok () m₁ := by
      rw [checkBounds, read_bind, if_neg within]
      rfl
    exact bind_of_ok passes _

theorem readChecked_eq : readChecked panic = readElement := by
  funext sequence index line
  exact located_checked fun found => read fun h => ((h.elements found.1)[found.2]?).getD .nil

theorem assignChecked_eq : assignChecked panic = assignElement := by
  funext sequence index value line
  exact located_checked fun found => do
    change (·.setElement found.1 found.2 value)
    return value

/-- With as many arguments as it takes, a native function finds all that it looks at. -/
theorem Native.runChecked_eq {f : Native} {arguments : List Value} (fits : arguments.length = f.arity) :
    f.runChecked panic arguments line = f.run arguments line := by
  unfold runChecked
  rw [if_neg (not_not.mpr fits)]
  cases f with
  | len =>
    obtain ⟨v, rfl⟩ := List.length_eq_one_iff.mp fits
    cases v <;> rfl
  | push =>
    obtain ⟨v, w, rfl⟩ := List.length_eq_two.mp fits
    cases v <;> rfl

theorem callChecked_eq : callChecked panic = call := by
  funext invoke callee arguments line m
  cases callee with
  | native f =>
    rw [callChecked, call]
    by_cases fits : arguments.length = f.arity
    · rw [Native.runChecked_eq fits]
    · have checks := checkArity_eq f.arity arguments.length line m
      rw [arityError?, if_neg fits] at checks
      exact (bind_of_error checks _).trans (bind_of_error checks _).symm
  | _ => rfl

theorem evalChecked_eq (self : Evaluator) (distances : Distances) :
    self.evalChecked distances panic = self.evalExpr distances := by
  funext frame e
  cases e with
  | call =>
    rw [Evaluator.evalChecked, callChecked_eq]
    rfl
  | element =>
    rw [Evaluator.evalChecked, readChecked_eq]
    rfl
  | setElement =>
    rw [Evaluator.evalChecked, assignChecked_eq]
    rfl
  | _ => rfl

/-- The evaluator never comes by an access that is out of bounds. -/
theorem checkedEvaluator_eq (distances : Distances) (n : Nat) :
    checkedEvaluator distances panic n = evaluator distances n := by
  induction n with
  | zero => rfl
  | succ n ih => rw [checkedEvaluator, ih, evalChecked_eq, evaluator]

/-- An index is good if and only if it is a whole number that is not below zero and below the length, and stands for
that place. At the moment of an access the array has the place, and the body of a native function runs with as many
arguments as it takes: it makes no difference to any run whether that is checked. -/
theorem accesses_in_bounds (distances : Distances) (panic : Stop) (n : Nat) :
    (∀ length < 2 ^ 53, ∀ v i, elementIndex length v = .ok i ↔
      i < length ∧ ∃ x, v = .number x ∧ Number.toRat? x = some (i : ℚ)) ∧
    checkedEvaluator distances panic n = evaluator distances n :=
  ⟨fun _ small _ _ => elementIndex_eq_ok small, checkedEvaluator_eq distances n⟩

/-- Negative zero is the first place. -/
theorem accesses_in_bounds_negative_zero : 0 < 1 ∧ elementIndex 1 (.number (-0.0)) = .ok 0 :=
  ⟨Nat.one_pos, ((accesses_in_bounds ∅ .starved 0).1 1 (by norm_num) (.number (-0.0)) 0).mpr ⟨Nat.one_pos, -0.0, rfl, by
    rw [Number.toRat?_eq_parts, Nat.cast_zero]
    rfl⟩⟩

end Lox
