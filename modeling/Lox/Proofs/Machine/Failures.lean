import Lox.Proofs.Machine.Bounds
import Lox.Proofs.Machine.Jumps

/-!
How operations fail. An operation looks at its operands from left to right and does its own work behind them. If it
fails before that work, or in a check of its own, it leaves everything as its operands left it, and the operands that
were to come make no difference.
-/

namespace Lox

open Run

/-! ### Lists of runs -/

namespace Run

variable {α β : Type} {f : α → Run β} {a : α} {as : List α} {b : β} {bs : List β} {m m₁ m₂ m' : Machine} {stop : Stop}

theorem each_cons_ok (first : f a m = .ok b m₁) (others : each f as m₁ = .ok bs m₂) :
    each f (a :: as) m = .ok (b :: bs) m₂ := by
  rw [each, bind_of_ok first, bind_of_ok others]
  rfl

theorem each_cons_inv {cs : List β} (done : each f (a :: as) m = .ok cs m₂) :
    ∃ b m₁ bs, f a m = .ok b m₁ ∧ each f as m₁ = .ok bs m₂ ∧ cs = b :: bs := by
  obtain ⟨b, m₁, first, done⟩ := bind_ok done
  obtain ⟨bs, m₂, others, done⟩ := bind_ok done
  cases done
  exact ⟨b, m₁, bs, first, others, rfl⟩

/-- If not all of them end, there is a first one that fails. -/
theorem each_eq_error :
    each f as m = .error stop m' ↔
      ∃ done a later bs m₁, as = done ++ a :: later ∧ each f done m = .ok bs m₁ ∧ f a m₁ = .error stop m' := by
  constructor
  · intro failed
    induction as generalizing m with
    | nil => cases failed
    | cons a as ih =>
      rcases bind_eq_error.mp failed with failed | ⟨b, m₁, first, failed⟩
      · exact ⟨[], a, as, [], m, rfl, rfl, failed⟩
      rcases bind_eq_error.mp failed with failed | ⟨_, _, _, never⟩
      · obtain ⟨done, a', later, bs, m₂, rfl, ran, failed⟩ := ih failed
        exact ⟨a :: done, a', later, b :: bs, m₂, rfl, each_cons_ok first ran, failed⟩
      · cases never
  · rintro ⟨done, a, later, bs, m₁, rfl, ran, failed⟩
    induction done generalizing m bs with
    | nil =>
      cases ran
      exact bind_of_error failed _
    | cons first done ih =>
      obtain ⟨b, m₂, bs, head, ran, _⟩ := each_cons_inv ran
      exact (bind_of_ok head _).trans (bind_of_error (ih bs ran) _)

end Run

/-! ### Operations -/

/-- What may fail: declarations, assignments, calls and `print`. The superclass of a class is a variable, so that it is
not an operand. -/
inductive Operation
  | declare (name : String) (line : Nat)
  | assign (target : Use)
  | setField (name : String) (line : Nat)
  | setElement (line : Nat)
  | call (line : Nat)
  | print (line : Nat)
  | declareClass (name : String) (superclass? : Option Use) (methods : List FunctionDecl) (line : Nat)

/-- A task fails if done on a machine. -/
def Task.Fails (self : Evaluator) (m : Machine) (stop : Stop) (m' : Machine) : Task → Prop
  | .expr frame e => self.expr frame e m = .error stop m'
  | .stmt frame s => self.stmt frame s m = .error stop m'
  | .invoke closure arguments => self.invoke closure arguments m = .error stop m'

namespace Operation

/-- An operation on operands. -/
def task? (frame : Ref .frame) : Operation → List Expr → Option Task
  | .declare name line, [] => some (.stmt frame (.varDecl name none line))
  | .declare name line, [initial] => some (.stmt frame (.varDecl name (some initial) line))
  | .assign target, [value] => some (.expr frame (.assign target value))
  | .setField name line, [object, value] => some (.expr frame (.setField object name value line))
  | .setElement line, [sequence, index, value] => some (.expr frame (.setElement sequence index value line))
  | .call line, callee :: arguments => some (.expr frame (.call callee arguments line))
  | .print line, items => some (.stmt frame (.print items line))
  | .declareClass name superclass? methods line, [] => some (.stmt frame (.classDecl name superclass? methods line))
  | _, _ => none

variable (self : Evaluator) (distances : Distances) (frame : Ref .frame)

/-- Why an operation goes no further when it has the values of some operands, and so many others are to come. -/
def refusal? (h : Heap) : Operation → List Value → Nat → Option Fault
  | .assign target, [_], 0 =>
    if (h.lookup? distances frame target.id target.name).isSome then none
    else some ⟨target.line, .undefinedVariable target.name⟩
  | .setField _ line, [object], 1 => if object.instance?.isSome then none else some ⟨line, .fieldOfNonInstance⟩
  | .setElement line, [sequence, index, _], 0 =>
    match sequence.array? with
    | none => some ⟨line, .notAnArray⟩
    | some array =>
      match elementIndex (h.elements array).size index with
      | .error error => some ⟨line, error⟩
      | .ok _ => none
  | .call line, callee :: arguments, 0 => (h.refusal? arguments callee).map (⟨line, ·⟩)
  | .declareClass _ (some superclass) _ line, [], 0 =>
    match h.lookup? distances frame superclass.id superclass.name with
    | none => some ⟨superclass.line, .undefinedVariable superclass.name⟩
    | some (.classObject _) => none
    | some _ => some ⟨line, .superclassNotClass⟩
  | _, _, _ => none

/-- How an operation fails on its own: it has looked at some operands, and either the last of them failed or it was
refused behind them. -/
inductive Stops (op : Operation) (m : Machine) : List Expr → Nat → Fault → Machine → Prop
  | operand (done) {vs m₁ e waiting fault m'} :
    each (self.expr frame) done m = .ok vs m₁ → self.expr frame e m₁ = .error (.fault fault) m' →
      Stops op m (done ++ [e]) waiting fault m'
  | refused {done vs waiting fault m'} :
    each (self.expr frame) done m = .ok vs m' → op.refusal? distances frame m'.heap vs waiting = some fault →
      Stops op m done waiting fault m'

/-- How an operation fails that has looked at all operands and was not refused: what it prints does not fit into the
output, or the function that it calls fails. -/
inductive StopsWithin (operands : List Expr) (m : Machine) (fault : Fault) (m' : Machine) : Operation → Prop
  | output {line vs m₁ text} :
    each (self.expr frame) operands m = .ok vs m₁ → printLine line text m₁ = .error (.fault fault) m' →
      StopsWithin operands m fault m' (.print line)
  | body {line callee arguments m₁ closure h} :
    each (self.expr frame) operands m = .ok (callee :: arguments) m₁ → m₁.heap.refusal? arguments callee = none →
      m₁.heap.entry? callee = some (closure, h) →
      self.invoke closure arguments { m₁ with heap := h } = .error (.fault fault) m' →
      StopsWithin operands m fault m' (.call line)

variable {self distances frame} {op : Operation} {operands : List Expr} {task : Task} {m m' : Machine} {fault : Fault}
  {n : Nat}

theorem assignVariable_fails {target : Use} {v : Value} {stop : Stop}
    (failed : assignVariable distances frame target v m = .error stop m') :
    m' = m ∧ m.heap.lookup? distances frame target.id target.name = none ∧
      stop = .fault ⟨target.line, .undefinedVariable target.name⟩ := by
  rw [assignVariable, read_bind] at failed
  unfold Heap.lookup?
  cases scope : m.heap.target? distances frame target.id with
  | none =>
    rw [scope] at failed
    cases failed
    exact ⟨rfl, rfl, rfl⟩
  | some r =>
    rw [scope] at failed
    cases bound : m.heap.binding? r target.name with
    | none =>
      rw [Option.filter_some, bound] at failed
      cases failed
      exact ⟨rfl, bound, rfl⟩
    | some w =>
      rw [Option.filter_some, bound] at failed
      cases failed

theorem assignElement_fails {sequence index v : Value} {line : Nat}
    (failed : assignElement sequence index v line m = .error (.fault fault) m') :
    m' = m ∧ (setElement line).refusal? distances frame m.heap [sequence, index, v] 0 = some fault := by
  rcases bind_eq_error.mp failed with failed | ⟨_, _, _, never⟩
  · rw [locate_eq] at failed
    rw [refusal?]
    cases isArray : sequence.array? with
    | none =>
      rw [isArray] at failed
      cases failed
      exact ⟨rfl, rfl⟩
    | some array =>
      rw [isArray] at failed
      dsimp only at failed ⊢
      cases place : elementIndex (m.heap.elements array).size index with
      | error =>
        rw [place] at failed
        cases failed
        exact ⟨rfl, rfl⟩
      | ok =>
        rw [place] at failed
        cases failed
  · cases never

theorem declareClass_fails {name : String} {superclass? : Option Use} {methods : List FunctionDecl} {line : Nat}
    (failed : Lox.declareClass distances frame name superclass? methods line m = .error (.fault fault) m') :
    m' = m ∧ (declareClass name superclass? methods line).refusal? distances frame m.heap [] 0 = some fault := by
  rcases bind_eq_error.mp failed with stopped | ⟨superclass, m₁, _, never⟩
  · cases superclass? with
    | none => cases stopped
    | some use =>
      have reading : readVariable distances frame use m =
          ofOption use.line (.undefinedVariable use.name) (m.heap.lookup? distances frame use.id use.name) m := rfl
      rw [refusal?]
      cases found : m.heap.lookup? distances frame use.id use.name with
      | none =>
        rw [found] at reading
        rw [readSuperclass, bind_of_error reading] at stopped
        cases stopped
        exact ⟨rfl, rfl⟩
      | some v =>
        rw [found] at reading
        rw [readSuperclass, bind_of_ok reading] at stopped
        cases v with
        | classObject => cases stopped
        | _ =>
          cases stopped
          exact ⟨rfl, rfl⟩
  · cases superclass with
    | none => cases never
    | some => cases never

/-- An operation fails on its own, and would do so with any others of the operands that were to come. -/
def FailsOnItsOwn (distances : Distances) (n : Nat) (frame : Ref .frame) (op : Operation) (operands : List Expr)
    (m : Machine) (fault : Fault) (m' : Machine) : Prop :=
  ∃ done later, operands = done ++ later ∧
    op.Stops (evaluator distances n) distances frame m done later.length fault m' ∧
    ∀ others task, others.length = later.length → op.task? frame (done ++ others) = some task →
      task.Fails (evaluator distances (n + 1)) m (.fault fault) m'

/-- If all operands were looked at, there are no others to come. -/
theorem failsOnItsOwn_all (made : op.task? frame operands = some task)
    (failed : task.Fails (evaluator distances (n + 1)) m (.fault fault) m')
    (stops : op.Stops (evaluator distances n) distances frame m operands 0 fault m') :
    op.FailsOnItsOwn distances n frame operands m fault m' := by
  refine ⟨operands, [], (List.append_nil _).symm, stops, fun others task' none made' => ?_⟩
  rw [List.length_eq_zero_iff.mp none, List.append_nil, made] at made'
  exact Option.some.inj made' ▸ failed

section Kinds

variable {line : Nat}

/-- The object of a field assignment is checked before its value is looked at. -/
theorem setField_fails {object value : Expr} {name : String}
    (failed : (evaluator distances n).evalExpr distances frame (.setField object name value line) m =
      .error (.fault fault) m') :
    (setField name line).FailsOnItsOwn distances n frame [object, value] m fault m' := by
  have whatever (earlier : ∀ w, (evaluator distances n).evalExpr distances frame (.setField object name w line) m =
      .error (.fault fault) m') (others : List Expr) (task : Task) (_ : others.length = [value].length)
      (made : (setField name line).task? frame ([object] ++ others) = some task) :
      task.Fails (evaluator distances (n + 1)) m (.fault fault) m' := by
    match others, made with
    | [w], rfl => exact earlier w
  rcases bind_eq_error.mp failed with stopped | ⟨v, m₁, first, second⟩
  · exact ⟨[object], [value], rfl, .operand [] rfl stopped, whatever fun w => bind_of_error stopped _⟩
  cases receiver : v.instance? with
  | none =>
    rw [receiver] at second
    cases second
    have refused : (setField name line).refusal? distances frame m'.heap [v] 1 = some ⟨line, .fieldOfNonInstance⟩ := by
      rw [refusal?, receiver]
      rfl
    refine ⟨[object], [value], rfl, .refused (each_cons_ok first rfl) refused, whatever fun w => ?_⟩
    refine (bind_of_ok first _).trans ?_
    rw [receiver]
    rfl
  | some r =>
    rw [receiver] at second
    rcases bind_eq_error.mp second with never | ⟨_, _, ⟨⟩, third⟩
    · cases never
    rcases bind_eq_error.mp third with stopped | ⟨_, _, _, never⟩
    · exact failsOnItsOwn_all rfl failed (.operand [object] (each_cons_ok first rfl) stopped)
    · cases never

theorem setElement_fails {sequence index value : Expr}
    (failed : (evaluator distances n).evalExpr distances frame (.setElement sequence index value line) m =
      .error (.fault fault) m') :
    (setElement line).FailsOnItsOwn distances n frame [sequence, index, value] m fault m' := by
  rcases bind_eq_error.mp failed with stopped | ⟨s, m₁, first, second⟩
  · refine ⟨[sequence], [index, value], rfl, .operand [] rfl stopped, fun others task _ made => ?_⟩
    match others, made with
    | [_, _], rfl => exact bind_of_error stopped _
  rcases bind_eq_error.mp second with stopped | ⟨i, m₂, other, third⟩
  · refine ⟨[sequence, index], [value], rfl, .operand [sequence] (each_cons_ok first rfl) stopped,
      fun others task _ made => ?_⟩
    match others, made with
    | [_], rfl => exact (bind_of_ok first _).trans (bind_of_error stopped _)
  have all : _ → (setElement line).FailsOnItsOwn distances n frame [sequence, index, value] m fault m' :=
    failsOnItsOwn_all rfl failed
  rcases bind_eq_error.mp third with stopped | ⟨v, m₃, last, refused⟩
  · exact all (.operand [sequence, index] (each_cons_ok first (each_cons_ok other rfl)) stopped)
  · obtain ⟨rfl, refused⟩ := assignElement_fails refused
    exact all (.refused (each_cons_ok first (each_cons_ok other (each_cons_ok last rfl))) refused)

theorem call_fails {callee : Expr} {arguments : List Expr}
    (failed : (evaluator distances n).evalExpr distances frame (.call callee arguments line) m =
      .error (.fault fault) m') :
    (call line).FailsOnItsOwn distances n frame (callee :: arguments) m fault m' ∨
      (call line).StopsWithin (evaluator distances n) frame (callee :: arguments) m fault m' := by
  rcases bind_eq_error.mp failed with stopped | ⟨f, m₁, first, second⟩
  · refine Or.inl ⟨[callee], arguments, rfl, .operand [] rfl stopped, fun others task _ made => ?_⟩
    cases made
    exact bind_of_error stopped _
  rcases bind_eq_error.mp second with stopped | ⟨vs, m₂, looked, third⟩
  · obtain ⟨done, e, later, vs, m₂, rfl, ran, stopped⟩ := each_eq_error.mp stopped
    refine Or.inl ⟨callee :: done ++ [e], later, by simp, .operand _ (each_cons_ok first ran) stopped,
      fun others task _ made => ?_⟩
    cases made
    refine (bind_of_ok first _).trans (bind_of_error (each_eq_error.mpr ⟨done, e, others, vs, m₂, ?_, ran, stopped⟩) _)
    simp
  have all := each_cons_ok first looked
  cases refused : m₂.heap.refusal? vs f with
  | some error =>
    cases (call_refused refused).symm.trans third
    refine Or.inl (failsOnItsOwn_all rfl failed (.refused all ?_))
    rw [refusal?, refused]
    rfl
  | none =>
    obtain ⟨closure, h, entry, stopped⟩ := Lox.call_fails refused third
    exact Or.inr (.body all refused entry stopped)

/-- The text of an item is read off the machine that the item leaves. -/
theorem textOf_fails {self : Evaluator} {e : Expr} {stop : Stop} :
    self.textOf frame e m = .error stop m' ↔ self.expr frame e m = .error stop m' := by
  refine bind_eq_error.trans (or_iff_left ?_)
  rintro ⟨_, _, _, never⟩
  cases never

theorem each_textOf_ok {self : Evaluator} {es : List Expr} {texts : List String}
    (done : each (self.textOf frame) es m = .ok texts m') : ∃ vs, each (self.expr frame) es m = .ok vs m' := by
  induction es generalizing m texts with
  | nil =>
    cases done
    exact ⟨[], rfl⟩
  | cons e es ih =>
    obtain ⟨_, m₁, _, first, others, _⟩ := each_cons_inv done
    obtain ⟨v, m₂, looked, shown⟩ := bind_ok first
    cases shown
    obtain ⟨vs, ran⟩ := ih others
    exact ⟨v :: vs, each_cons_ok looked ran⟩

theorem print_fails {items : List Expr}
    (failed : (evaluator distances n).execStmt distances n frame (.print items line) m = .error (.fault fault) m') :
    (print line).FailsOnItsOwn distances n frame items m fault m' ∨
      (print line).StopsWithin (evaluator distances n) frame items m fault m' := by
  rcases bind_eq_error.mp failed with stopped | ⟨texts, m₁, looked, second⟩
  · obtain ⟨done, e, later, texts, m₁, rfl, ran, stopped⟩ := each_eq_error.mp stopped
    obtain ⟨vs, looked⟩ := each_textOf_ok ran
    refine Or.inl ⟨done ++ [e], later, by simp, .operand done looked (textOf_fails.mp stopped),
      fun others task _ made => ?_⟩
    cases made
    refine bind_of_error (each_eq_error.mpr ⟨done, e, others, texts, m₁, ?_, ran, stopped⟩) _
    simp
  · obtain ⟨vs, looked⟩ := each_textOf_ok looked
    rcases bind_eq_error.mp second with stopped | ⟨_, _, _, never⟩
    · exact Or.inr (.output looked stopped)
    · cases never

end Kinds

/-- An operation that fails leaves the machine as it was behind the operands that it has looked at, from left to right
and up to one that failed, or up to a check of its own; the operands that were to come make no difference. Otherwise
it fails in writing its output or in the function that it calls. -/
theorem failure_leaves_operands (made : op.task? frame operands = some task)
    (failed : task.Fails (evaluator distances (n + 1)) m (.fault fault) m') :
    op.FailsOnItsOwn distances n frame operands m fault m' ∨
      op.StopsWithin (evaluator distances n) frame operands m fault m' := by
  have all := failsOnItsOwn_all made failed
  match op, operands, made with
  | .declare name line, [], rfl => cases failed
  | .declare name line, [initial], rfl =>
    rcases bind_eq_error.mp failed with stopped | ⟨_, _, _, never⟩
    · exact Or.inl (all (.operand [] rfl stopped))
    · cases never
  | .assign target, [value], rfl =>
    rcases bind_eq_error.mp failed with stopped | ⟨v, m₁, first, second⟩
    · exact Or.inl (all (.operand [] rfl stopped))
    · obtain ⟨rfl, unbound, same⟩ := assignVariable_fails second
      cases same
      refine Or.inl (all (.refused (each_cons_ok first rfl) ?_))
      rw [refusal?, unbound]
      rfl
  | .setField name line, [object, value], rfl => exact Or.inl (setField_fails failed)
  | .setElement line, [sequence, index, value], rfl => exact Or.inl (setElement_fails failed)
  | .call line, callee :: arguments, rfl => exact call_fails failed
  | .print line, items, rfl => exact print_fails failed
  | .declareClass name superclass? methods line, [], rfl =>
    rcases bind_eq_error.mp failed with stopped | ⟨_, _, _, never⟩
    · obtain ⟨rfl, refused⟩ := declareClass_fails stopped
      exact Or.inl (all (.refused rfl refused))
    · cases never

/-- The value to assign to a field of `nil` is not looked at. -/
theorem failure_leaves_operands_field :
    let operands := [.literal .nil, .var ⟨0, "y", 3⟩]
    let task := Task.expr Heap.globals (.setField (.literal .nil) "x" (.var ⟨0, "y", 3⟩) 3)
    let fault := ⟨3, .fieldOfNonInstance⟩
    (setField "x" 3).task? Heap.globals operands = some task ∧
      task.Fails (evaluator ∅ 2) (.start none) (.fault fault) (.start none) ∧
      (setField "x" 3).FailsOnItsOwn ∅ 1 Heap.globals operands (.start none) fault (.start none) := by
  intro operands task fault
  have made : (setField "x" 3).task? Heap.globals operands = some task := rfl
  have failed : task.Fails (evaluator ∅ 2) (.start none) (.fault fault) (.start none) := rfl
  exact ⟨made, failed, (failure_leaves_operands made failed).resolve_right nofun⟩

end Operation

end Lox
