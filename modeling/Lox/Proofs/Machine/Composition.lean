import Lox.Machine.Execution

/-!
Properties that pass from parts to wholes. Suppose that a property holds of each single change to a heap, of a run
that goes on with what another one gives, of a print statement whose items have it, and of a task whose
body has it one level further down. Then all that an evaluator does, to any depth, has the property.
-/

namespace Lox

open Run

variable {α β : Type}

/-- A property of runs with an evaluator of some depth passes from parts to wholes. -/
structure Composes (distances : Distances) (P : {α : Type} → Nat → (Evaluator → Run α) → Prop) : Prop where
  pure : ∀ {α n} (a : α), P n fun _ => Pure.pure a
  fault : ∀ {α n} (line : Nat) (error : RuntimeError), P n fun _ => (Run.fault line error : Run α)
  starve : ∀ {α n}, P n fun _ => (Run.starve : Run α)
  read : ∀ {α n} (f : Heap → α), P n fun _ => Run.read f
  andThen : ∀ {α β n} {x : Evaluator → Run α} {f : Evaluator → α → Run β},
    P n x → (∀ a, P n fun self => f self a) → P n fun self => x self >>= f self
  addFrame : ∀ {n} parent, P n fun _ => make (·.addFrame parent)
  addClosure : ∀ {n} closure, P n fun _ => make (·.addClosure closure)
  addClass : ∀ {n} made, P n fun _ => make (·.addClass made)
  addInstance : ∀ {n} classRef, P n fun _ => make (·.addInstance classRef)
  addArray : ∀ {n} elements, P n fun _ => make (·.addArray elements)
  bind : ∀ {n} frame name value, P n fun _ => change (·.bind frame name value)
  bindParams : ∀ {n} frame params arguments, P n fun _ => change (Lox.bindParams frame params arguments)
  setField : ∀ {n} receiver name value, P n fun _ => change (·.setField receiver name value)
  setElement : ∀ {n} array index value, P n fun _ => change (·.setElement array index value)
  pushElement : ∀ {n} array value, P n fun _ => change (·.pushElement array value)
  starved : ∀ {α} {x : Evaluator → Run α}, x .starved = Run.starve → P 0 x
  expr : ∀ {n frame e}, P n (fun self => self.evalExpr distances frame e) → P (n + 1) fun self => self.expr frame e
  print : ∀ {n frame items line}, P n (fun self => each (self.textOf frame) items) →
    P (n + 1) fun self => self.stmt frame (.print items line)
  stmt : ∀ {n frame s}, (∀ items line, s ≠ .print items line) →
    P n (fun self => self.execStmt distances n frame s) → P (n + 1) fun self => self.stmt frame s
  invoke : ∀ {n closure arguments}, P n (fun self => self.invokeClosure closure arguments) →
    P (n + 1) fun self => self.invoke closure arguments

namespace Composes

variable {distances : Distances} {P : {α : Type} → Nat → (Evaluator → Run α) → Prop} (rules : Composes distances P)
  {n : Nat}
include rules

/-! ### Rules -/

theorem ofOption (line : Nat) (error : RuntimeError) (a? : Option α) : P n fun _ => Run.ofOption line error a? := by
  cases a? with
  | none => exact rules.fault line error
  | some a => exact rules.pure a

theorem ofExcept (line : Nat) (a : Except RuntimeError α) : P n fun _ => Run.ofExcept line a := by
  cases a with
  | error error => exact rules.fault line error
  | ok a => exact rules.pure a

omit rules in
theorem ite {p : Prop} [Decidable p] {x y : Evaluator → Run α} (yes : P n x) (no : P n y) :
    P n fun self => if p then x self else y self := by
  by_cases holds : p
  · simpa only [if_pos holds] using yes
  · simpa only [if_neg holds] using no

theorem each {f : Evaluator → α → Run β} (first : ∀ a, P n fun self => f self a) (as : List α) :
    P n fun self => Run.each (f self) as := by
  induction as with
  | nil => exact rules.pure []
  | cons a as ih => exact rules.andThen (first a) fun _ => rules.andThen ih fun _ => rules.pure _

theorem inOrder {f : Evaluator → α → Run Flow} (first : ∀ a, P n fun self => f self a) (as : List α) :
    P n fun self => Run.inOrder (f self) as := by
  induction as with
  | nil => exact rules.pure Flow.normal
  | cons a as ih =>
    refine rules.andThen (first a) fun flow => ?_
    cases flow with
    | normal => exact ih
    | _ => exact rules.pure _

theorem rounds {test : Evaluator → Run Bool} {body : Evaluator → Run Flow} (tests : P n test) (bodies : P n body)
    (k : Nat) : P n fun self => Run.rounds k (test self) (body self) := by
  induction k with
  | zero => exact rules.starve
  | succ k ih =>
    refine rules.andThen tests fun goesOn => ?_
    cases goesOn with
    | false => exact rules.pure _
    | true =>
      refine rules.andThen bodies fun flow => ?_
      cases flow with
      | normal => exact ih
      | continued => exact ih
      | broke => exact rules.pure _
      | returned value => exact rules.pure _

/-! ### Operations -/

theorem readVariable (distances : Distances) (frame : Ref .frame) (use : Use) :
    P n fun _ => Lox.readVariable distances frame use :=
  rules.andThen (rules.read _) fun _ => rules.ofOption _ _ _

theorem assignVariable (distances : Distances) (frame : Ref .frame) (use : Use) (value : Value) :
    P n fun _ => Lox.assignVariable distances frame use value := by
  refine rules.andThen (rules.read _) fun _ => rules.andThen (rules.ofOption _ _ _) fun target => ?_
  exact rules.andThen (rules.bind target use.name value) fun _ => rules.pure _

theorem bindMethod (method : Closure) (receiver : Ref .instance) : P n fun _ => Lox.bindMethod method receiver := by
  refine rules.andThen (rules.addFrame method.scope) fun frame => ?_
  exact rules.andThen (rules.bind frame thisName (.instance receiver)) fun _ => rules.pure _

theorem methodValue (method : Closure) (receiver : Ref .instance) : P n fun _ => Lox.methodValue method receiver :=
  rules.andThen (rules.bindMethod method receiver) fun bound =>
    rules.andThen (rules.addClosure bound) fun _ => rules.pure _

theorem readProperty (receiver : Ref .instance) (name : String) (line : Nat) :
    P n fun _ => Lox.readProperty receiver name line := by
  refine rules.andThen (rules.read _) fun value? => ?_
  cases value? with
  | some value => exact rules.pure value
  | none =>
    refine rules.andThen (rules.read _) fun _ => rules.andThen (rules.ofOption _ _ _) fun method => ?_
    exact rules.methodValue method receiver

theorem readSuper (distances : Distances) (frame : Ref .frame) (id : Nat) (name : String) (line : Nat) :
    P n fun _ => Lox.readSuper distances frame id name line := by
  unfold Lox.readSuper
  split
  · refine rules.andThen (rules.read _) fun superclass? => ?_
    split
    · refine rules.andThen (rules.read _) fun receiver? => ?_
      split
      · refine rules.andThen (rules.read _) fun _ => rules.andThen (rules.ofOption _ _ _) fun method => ?_
        exact rules.methodValue method _
      · exact rules.fault _ _
    · exact rules.fault _ _
  · exact rules.fault _ _

theorem locate (sequence index : Value) (line : Nat) : P n fun _ => Lox.locate sequence index line := by
  refine rules.andThen (rules.ofOption _ _ _) fun _ => rules.andThen (rules.read _) fun _ => ?_
  exact rules.andThen (rules.ofExcept _ _) fun _ => rules.pure _

theorem readElement (sequence index : Value) (line : Nat) : P n fun _ => Lox.readElement sequence index line :=
  rules.andThen (rules.locate sequence index line) fun _ => rules.read _

theorem assignElement (sequence index value : Value) (line : Nat) :
    P n fun _ => Lox.assignElement sequence index value line :=
  rules.andThen (rules.locate sequence index line) fun place =>
    rules.andThen (rules.setElement place.1 place.2 value) fun _ => rules.pure _

theorem native (f : Native) (arguments : List Value) (line : Nat) : P n fun _ => f.run arguments line := by
  unfold Native.run
  split
  · exact rules.andThen (rules.read _) fun _ => rules.pure _
  · next array value _ =>
    exact rules.andThen (rules.pushElement array value) fun _ => rules.andThen (rules.read _) fun _ => rules.pure _
  · exact rules.fault _ _

theorem checkArity (expected found line : Nat) : P n fun _ => Lox.checkArity expected found line :=
  ite (rules.pure _) (rules.fault _ _)

theorem declareClass (distances : Distances) (frame : Ref .frame) (name : String) (superclass? : Option Use)
    (methods : List FunctionDecl) (line : Nat) :
    P n fun _ => Lox.declareClass distances frame name superclass? methods line := by
  have superclass : P n fun _ => readSuperclass distances frame line superclass? := by
    cases superclass? with
    | none => exact rules.pure none
    | some use =>
      refine rules.andThen (rules.readVariable distances frame use) fun value => ?_
      cases value with
      | classObject _ => exact rules.pure _
      | _ => exact rules.fault _ _
  have scope (superclass : Option (Ref .classObject)) : P n fun _ => methodScope frame superclass := by
    cases superclass with
    | none => exact rules.pure frame
    | some superclass =>
      refine rules.andThen (rules.addFrame frame) fun scope => ?_
      exact rules.andThen (rules.bind scope superName _) fun _ => rules.pure _
  refine rules.andThen superclass fun superclass => rules.andThen (rules.bind frame name .nil) fun _ => ?_
  refine rules.andThen (scope superclass) fun scope => ?_
  exact rules.andThen (rules.addClass _) fun made => rules.bind frame name _

end Composes

/-! ### The evaluator -/

/-- All that an evaluator of some depth does has a property. -/
structure Composed (P : {α : Type} → Nat → (Evaluator → Run α) → Prop) (n : Nat) : Prop where
  expr : ∀ frame e, P n fun self => self.expr frame e
  stmt : ∀ frame s, P n fun self => self.stmt frame s
  invoke : ∀ closure arguments, P n fun self => self.invoke closure arguments

namespace Composed

variable {distances : Distances} {P : {α : Type} → Nat → (Evaluator → Run α) → Prop} (rules : Composes distances P)
  {n : Nat} (parts : Composed P n)
include rules parts

theorem test (frame : Ref .frame) (e : Expr) : P n fun self => self.test frame e :=
  rules.andThen (parts.expr frame e) fun _ => rules.pure _

theorem exprOrNil (frame : Ref .frame) (e? : Option Expr) : P n fun self => self.exprOrNil frame e? := by
  cases e? with
  | none => exact rules.pure _
  | some e => exact parts.expr frame e

theorem testOrTrue (frame : Ref .frame) (e? : Option Expr) : P n fun self => self.testOrTrue frame e? := by
  cases e? with
  | none => exact rules.pure _
  | some e => exact parts.test rules frame e

theorem execInitial (frame : Ref .frame) (s? : Option Stmt) : P n fun self => self.execInitial frame s? := by
  cases s? with
  | none => exact rules.pure _
  | some s => exact rules.andThen (parts.stmt frame s) fun _ => rules.pure _

theorem execRound (frame : Ref .frame) (body : Stmt) (step? : Option Expr) :
    P n fun self => self.execRound frame body step? := by
  refine rules.andThen (parts.stmt frame body) fun flow => ?_
  cases flow with
  | broke => exact rules.pure _
  | returned value => exact rules.pure _
  | _ => exact rules.andThen (parts.exprOrNil rules frame step?) fun _ => rules.pure _

theorem call (callee : Value) (arguments : List Value) (line : Nat) :
    P n fun self => Lox.call self.invoke callee arguments line := by
  cases callee with
  | function r =>
    refine rules.andThen (rules.read _) fun _ => rules.andThen (rules.ofOption _ _ _) fun closure => ?_
    exact rules.andThen (rules.checkArity _ _ _) fun _ => parts.invoke closure arguments
  | native f => exact rules.andThen (rules.checkArity _ _ _) fun _ => rules.native _ _ _
  | classObject r =>
    refine rules.andThen (rules.read _) fun initializer? => ?_
    cases initializer? with
    | none =>
      refine rules.andThen (rules.checkArity _ _ _) fun _ => ?_
      exact rules.andThen (rules.addInstance r) fun _ => rules.pure _
    | some initializer =>
      refine rules.andThen (rules.checkArity _ _ _) fun _ => rules.andThen (rules.addInstance r) fun receiver => ?_
      refine rules.andThen (rules.bindMethod _ receiver) fun bound => ?_
      exact rules.andThen (parts.invoke bound arguments) fun _ => rules.pure _
  | _ => exact rules.fault _ _

theorem evalExpr (frame : Ref .frame) (e : Expr) : P n fun self => self.evalExpr distances frame e := by
  have expr := parts.expr frame
  cases e with
  | literal value => exact rules.pure _
  | group inner => exact expr inner
  | unary op operand line => exact rules.andThen (expr operand) fun _ => rules.ofExcept _ _
  | binary op left right line =>
    refine rules.andThen (expr left) fun l => Composes.ite (rules.pure _) ?_
    exact rules.andThen (expr right) fun _ => rules.ofExcept _ _
  | conditional test consequent alternative =>
    exact rules.andThen (parts.test rules frame test) fun truth => Composes.ite (expr consequent) (expr alternative)
  | var use => exact rules.readVariable distances frame use
  | assign target value =>
    exact rules.andThen (expr value) fun v => rules.assignVariable distances frame target v
  | thisRef id line => exact rules.readVariable distances frame _
  | superRef id method line => exact rules.readSuper distances frame id method line
  | call callee arguments line =>
    refine rules.andThen (expr callee) fun f => rules.andThen (rules.each expr arguments) fun vs => ?_
    exact parts.call rules f vs line
  | field object name line =>
    refine rules.andThen (expr object) fun v => rules.andThen (rules.ofOption _ _ _) fun receiver => ?_
    exact rules.readProperty receiver name line
  | setField object name value line =>
    refine rules.andThen (expr object) fun v => rules.andThen (rules.ofOption _ _ _) fun receiver => ?_
    exact rules.andThen (expr value) fun w => rules.andThen (rules.setField receiver name w) fun _ => rules.pure _
  | array elements =>
    refine rules.andThen (rules.each expr elements) fun vs => ?_
    exact rules.andThen (rules.addArray vs.toArray) fun _ => rules.pure _
  | element sequence index line =>
    refine rules.andThen (expr sequence) fun s => rules.andThen (expr index) fun i => ?_
    exact rules.readElement s i line
  | setElement sequence index value line =>
    refine rules.andThen (expr sequence) fun s => rules.andThen (expr index) fun i => ?_
    exact rules.andThen (expr value) fun v => rules.assignElement s i v line

theorem execStmt (k : Nat) (frame : Ref .frame) (s : Stmt) (other : ∀ items line, s ≠ .print items line) :
    P n fun self => self.execStmt distances k frame s := by
  cases s with
  | expr value => exact rules.andThen (parts.expr frame value) fun _ => rules.pure _
  | print items line => exact absurd rfl (other items line)
  | varDecl name initial? line =>
    refine rules.andThen (parts.exprOrNil rules frame initial?) fun v => ?_
    exact rules.andThen (rules.bind frame name v) fun _ => rules.pure _
  | block body => exact rules.andThen (rules.addFrame frame) fun inner => rules.inOrder (parts.stmt inner) body
  | ifElse test consequent alternative? =>
    refine rules.andThen (parts.test rules frame test) fun truth => Composes.ite (parts.stmt frame consequent) ?_
    cases alternative? with
    | none => exact rules.pure _
    | some alternative => exact parts.stmt frame alternative
  | whileLoop test body => exact rules.rounds (parts.test rules frame test) (parts.stmt frame body) k
  | forLoop initial? test? step? body =>
    refine rules.andThen (rules.addFrame frame) fun inner => ?_
    refine rules.andThen (parts.execInitial rules inner initial?) fun _ => ?_
    exact rules.rounds (parts.testOrTrue rules inner test?) (parts.execRound rules inner body step?) k
  | breakLoop => exact rules.pure _
  | continueLoop => exact rules.pure _
  | funDecl decl =>
    refine rules.andThen (rules.addClosure ⟨decl, frame, false⟩) fun ref => ?_
    exact rules.andThen (rules.bind frame decl.name (.function ref)) fun _ => rules.pure _
  | returnValue value? line => exact rules.andThen (parts.exprOrNil rules frame value?) fun v => rules.pure _
  | classDecl name superclass? methods line =>
    exact rules.andThen (rules.declareClass distances frame name superclass? methods line) fun _ => rules.pure _

theorem invokeClosure (closure : Closure) (arguments : List Value) :
    P n fun self => self.invokeClosure closure arguments := by
  refine rules.andThen (rules.addFrame closure.scope) fun frame => ?_
  refine rules.andThen (rules.bindParams frame closure.decl.params arguments) fun _ => ?_
  refine rules.andThen (rules.inOrder (parts.stmt frame) closure.decl.body) fun flow => Composes.ite ?_ ?_
  · exact rules.andThen (rules.read _) fun _ => rules.pure _
  · cases flow <;> exact rules.pure _

end Composed

section Depth

variable {distances : Distances} {P : {α : Type} → Nat → (Evaluator → Run α) → Prop} (rules : Composes distances P)
include rules

/-- Whatever is run, to whatever depth, has the property. -/
theorem composed (n : Nat) : Composed P n := by
  induction n with
  | zero => exact ⟨fun _ _ => rules.starved rfl, fun _ _ => rules.starved rfl, fun _ _ => rules.starved rfl⟩
  | succ n ih =>
    refine ⟨fun frame e => rules.expr (ih.evalExpr rules frame e), fun frame s => ?_,
      fun closure arguments => rules.invoke (ih.invokeClosure rules closure arguments)⟩
    by_cases prints : ∃ items line, s = .print items line
    · obtain ⟨items, line, rfl⟩ := prints
      exact rules.print (rules.each (fun e => rules.andThen (ih.expr frame e) fun _ => rules.read _) items)
    · have other (items : List Expr) (line : Nat) (same : s = .print items line) : False :=
        prints ⟨items, line, same⟩
      exact rules.stmt other (ih.execStmt rules n frame s other)

/-- So has a program. -/
theorem composed_interpret (n : Nat) (program : List Stmt) : P n fun self => interpret self program := by
  induction program with
  | nil => exact rules.pure _
  | cons s ss ih => exact rules.andThen ((composed rules n).stmt Heap.globals s) fun _ => ih

end Depth

end Lox
