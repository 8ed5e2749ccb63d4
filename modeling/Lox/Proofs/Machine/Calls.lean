import Lox.Proofs.Machine.Breakpoints
import Lox.Proofs.Machine.Persistence

/-!
Calls. A call is refused, and then nothing happens, or it runs the body of a function, or it is done at once.
A class that has or inherits an initializer runs it for a new instance.
-/

namespace Lox

open Run

/-- A number of arguments that is not the expected one. -/
def arityError? (expected found : Nat) : Option RuntimeError :=
  if found = expected then none else some (.arity expected found)

namespace Heap

variable (h : Heap)

/-- The number of arguments with which a class is called. -/
def initArity (c : Ref .classObject) : Nat :=
  ((h.method? c initName).map (·.decl.params.length)).getD 0

/-- Why a value is not called with some arguments. -/
def refusal? (arguments : List Value) : Value → Option RuntimeError
  | .function r =>
    match h.closure? r with
    | none => some .notCallable
    | some closure => arityError? closure.decl.params.length arguments.length
  | .native f =>
    (arityError? f.arity arguments.length).or
      (if (arguments.head?.bind Value.array?).isSome then none else some (.badArgument f))
  | .classObject c => arityError? (h.initArity c) arguments.length
  | _ => some .notCallable

/-- A new instance of a class, and a method that is bound to it. -/
def instantiate (c : Ref .classObject) (method : Closure) : Closure × Heap :=
  let made := h.addInstance c
  let scope := made.2.enclose method.scope thisName (.instance made.1)
  ({ method with scope := scope.1 }, scope.2)

/-- The function whose body a call runs, and the heap on which it does. -/
def entry? : Value → Option (Closure × Heap)
  | .function r => (h.closure? r).map fun closure => (closure, h)
  | .classObject c => (h.method? c initName).map (h.instantiate c)
  | _ => none

end Heap

variable {invoke : Closure → List Value → Run Value} {callee : Value} {arguments : List Value} {line : Nat}
  {m m' : Machine} {closure : Closure} {error : RuntimeError} {stop : Stop}

/-! ### Runs that fail -/

/-- The first of two runs fails, or the second one does. -/
theorem Run.bind_eq_error {α β : Type} {x : Run α} {f : α → Run β} :
    (x >>= f) m = .error stop m' ↔ x m = .error stop m' ∨ ∃ a m₁, x m = .ok a m₁ ∧ f a m₁ = .error stop m' := by
  cases first : x m with
  | ok a m₁ =>
    rw [bind_of_ok first]
    refine ⟨fun failed => Or.inr ⟨a, m₁, rfl, failed⟩, fun either => ?_⟩
    rcases either with never | ⟨_, _, ⟨⟩, failed⟩
    · cases never
    · exact failed
  | error stop₁ m₁ =>
    rw [bind_of_error first]
    refine ⟨fun failed => Or.inl ?_, fun either => ?_⟩
    · cases failed
      rfl
    · rcases either with failed | ⟨_, _, never, _⟩
      · cases failed
        rfl
      · cases never

/-! ### Each kind of callee -/

theorem checkArity_eq (expected found line : Nat) (m : Machine) :
    checkArity expected found line m =
      match arityError? expected found with
      | none => .ok () m
      | some error => .error (.fault ⟨line, error⟩) m := by
  unfold checkArity arityError?
  split <;> rfl

/-- A check of the number of arguments comes first. -/
theorem checked {α : Type} (expected found line : Nat) (run : Run α) (m : Machine) :
    (checkArity expected found line >>= fun _ => run) m =
      match arityError? expected found with
      | none => run m
      | some error => .error (.fault ⟨line, error⟩) m := by
  have checks := checkArity_eq expected found line m
  split at checks
  · exact bind_of_ok checks _
  · exact bind_of_error checks _

theorem call_function {r : Ref .closure} (found : m.heap.closure? r = some closure) :
    call invoke (.function r) arguments line m =
      match arityError? closure.decl.params.length arguments.length with
      | none => invoke closure arguments m
      | some error => .error (.fault ⟨line, error⟩) m := by
  rw [call, read_bind, found]
  exact checked ..

theorem call_function_ok {r : Ref .closure} {v : Value} (found : m.heap.closure? r = some closure)
    (done : call invoke (.function r) arguments line m = .ok v m') :
    arguments.length = closure.decl.params.length ∧ invoke closure arguments m = .ok v m' := by
  rw [call_function found, arityError?] at done
  by_cases fits : arguments.length = closure.decl.params.length
  · rw [if_pos fits] at done
    exact ⟨fits, done⟩
  · rw [if_neg fits] at done
    cases done

/-- With as many arguments as it takes, a native function fails only if the first of them is no array. -/
theorem Native.run_cases {f : Native} (fits : arguments.length = f.arity) (line : Nat) (m : Machine) :
    if (arguments.head?.bind Value.array?).isSome then ∃ v m', f.run arguments line m = .ok v m'
    else f.run arguments line m = .error (.fault ⟨line, .badArgument f⟩) m := by
  cases f with
  | len =>
    obtain ⟨v, rfl⟩ := List.length_eq_one_iff.mp fits
    cases v with
    | array r => exact ⟨_, _, rfl⟩
    | _ => rfl
  | push =>
    match arguments, fits with
    | [v, w], _ =>
      cases v with
      | array r => exact ⟨_, _, rfl⟩
      | _ => rfl

theorem call_native (f : Native) :
    match m.heap.refusal? arguments (.native f) with
    | none => ∃ v m', call invoke (.native f) arguments line m = .ok v m'
    | some error => call invoke (.native f) arguments line m = .error (.fault ⟨line, error⟩) m := by
  have called : call invoke (.native f) arguments line m = _ := checked f.arity arguments.length line _ m
  rw [called, Heap.refusal?]
  unfold arityError?
  by_cases fits : arguments.length = f.arity
  · have ran := Native.run_cases fits line m
    rw [if_pos fits, Option.none_or]
    split at ran
    · next array =>
      rw [if_pos array]
      exact ran
    · next other =>
      rw [if_neg other]
      exact ran
  · rw [if_neg fits]
    rfl

theorem call_class {c : Ref .classObject} :
    call invoke (.classObject c) arguments line m =
      match arityError? (m.heap.initArity c) arguments.length with
      | none =>
        match m.heap.method? c initName with
        | none => .ok (.instance (m.heap.addInstance c).1) { m with heap := (m.heap.addInstance c).2 }
        | some initializer =>
          (invoke (m.heap.instantiate c initializer).1 arguments >>= fun _ =>
            pure (.instance (m.heap.addInstance c).1)) { m with heap := (m.heap.instantiate c initializer).2 }
      | some error => .error (.fault ⟨line, error⟩) m := by
  rw [call, read_bind, Heap.initArity]
  cases m.heap.method? c initName with
  | none => exact checked ..
  | some initializer => exact checked ..

/-! ### How a call fails -/

/-- What is refused has no effect. -/
theorem call_refused (refused : m.heap.refusal? arguments callee = some error) :
    call invoke callee arguments line m = .error (.fault ⟨line, error⟩) m := by
  cases callee with
  | function r =>
    cases found : m.heap.closure? r with
    | none =>
      rw [Heap.refusal?, found] at refused
      obtain rfl := Option.some.inj refused
      rw [call, read_bind, found]
      rfl
    | some closure =>
      rw [Heap.refusal?, found] at refused
      rw [call_function found, show arityError? _ _ = some error from refused]
  | native f =>
    have called := @call_native invoke arguments line m f
    rw [refused] at called
    exact called
  | classObject c =>
    rw [call_class, show arityError? _ _ = some error from refused]
  | _ =>
    obtain rfl := Option.some.inj refused
    rfl

/-- A call that is not refused fails only in the body that it runs. -/
theorem call_fails (allowed : m.heap.refusal? arguments callee = none)
    (failed : call invoke callee arguments line m = .error stop m') :
    ∃ closure h, m.heap.entry? callee = some (closure, h) ∧
      invoke closure arguments { m with heap := h } = .error stop m' := by
  cases callee with
  | function r =>
    cases found : m.heap.closure? r with
    | none =>
      rw [Heap.refusal?, found] at allowed
      cases allowed
    | some closure =>
      rw [Heap.refusal?, found] at allowed
      rw [call_function found, show arityError? _ _ = none from allowed] at failed
      refine ⟨closure, m.heap, ?_, failed⟩
      rw [Heap.entry?, found]
      rfl
  | native f =>
    have called := @call_native invoke arguments line m f
    rw [allowed] at called
    obtain ⟨v, m₁, done⟩ := called
    cases done.symm.trans failed
  | classObject c =>
    rw [call_class, show arityError? _ _ = none from allowed] at failed
    cases found : m.heap.method? c initName with
    | none =>
      rw [found] at failed
      cases failed
    | some initializer =>
      rw [found] at failed
      rcases bind_eq_error.mp failed with failed | ⟨_, _, _, never⟩
      · refine ⟨_, _, ?_, failed⟩
        rw [Heap.entry?, found]
        rfl
      · cases never
  | _ => cases allowed

end Lox
