import Lox.Machine.Operator
import Lox.Machine.Run
import Lox.Scope.Resolution

/-!
# Running programs

`Evaluator.evalExpr`, `Evaluator.execStmt` and `Evaluator.invokeClosure` say what an expression, a
statement and a call come to, given an evaluator for their parts.  `evaluator distances n` ties them
together to a depth of `n`.  `distances` says how many frames out a name is bound; names without an
entry are global.
-/

namespace Lox

open Run

/-! ### Variables -/

/-- The frame that a node refers to, from the frame in which it runs. -/
def Heap.target? (h : Heap) (distances : Distances) (frame : Ref .frame) (id : Nat) :
    Option (Ref .frame) :=
  match distances.get? id with
  | some distance => h.ancestor? frame distance
  | none => some Heap.globals

def Heap.lookup? (h : Heap) (distances : Distances) (frame : Ref .frame) (id : Nat)
    (name : String) : Option Value :=
  (h.target? distances frame id).bind (h.binding? · name)

def readVariable (distances : Distances) (frame : Ref .frame) (use : Use) : Run Value := do
  let value? ← read (·.lookup? distances frame use.id use.name)
  ofOption use.line (.undefinedVariable use.name) value?

/-- Changes a variable, which must exist. -/
def assignVariable (distances : Distances) (frame : Ref .frame) (use : Use) (value : Value) :
    Run Value := do
  let target? ← read fun h =>
    (h.target? distances frame use.id).filter fun r => (h.binding? r use.name).isSome
  let target ← ofOption use.line (.undefinedVariable use.name) target?
  change (·.bind target use.name value)
  return value

/-! ### Instances -/

/-- A method of an instance: its own frame, within that of the class, binds `this`. -/
def bindMethod (method : Closure) (receiver : Ref .instance) : Run Closure := do
  let frame ← make (·.addFrame method.scope)
  change (·.bind frame thisName (.instance receiver))
  return { method with scope := frame }

def methodValue (method : Closure) (receiver : Ref .instance) : Run Value := do
  let bound ← bindMethod method receiver
  let ref ← make (·.addClosure bound)
  return .function ref

/-- A field of an instance, or else a method of its class. -/
def readProperty (receiver : Ref .instance) (name : String) (line : Nat) : Run Value := do
  match ← read fun h => (h.instance? receiver).bind (·.fields.get? name) with
  | some value => return value
  | none =>
    let method? ← read fun h => (h.instance? receiver).bind fun i => h.method? i.classRef name
    let method ← ofOption line (.undefinedProperty name) method?
    methodValue method receiver

/-- A method of the superclass of the class around a method, for the instance of that method.  The
frame that binds `this` is the one within the frame that binds `super`. -/
def readSuper (distances : Distances) (frame : Ref .frame) (id : Nat) (name : String) (line : Nat) :
    Run Value := do
  match distances.get? id with
  | some (distance + 1) =>
    match ← read fun h => (h.ancestor? frame (distance + 1)).bind (h.binding? · superName) with
    | some (.classObject superclass) =>
      match ← read fun h => (h.ancestor? frame distance).bind (h.binding? · thisName) with
      | some (.instance receiver) =>
        let method? ← read (·.method? superclass name)
        let method ← ofOption line (.undefinedProperty name) method?
        methodValue method receiver
      | _ => fault line (.undefinedVariable thisName)
    | _ => fault line (.undefinedVariable superName)
  | _ => fault line (.undefinedVariable superName)

def Value.instance? : Value → Option (Ref .instance)
  | .instance r => some r
  | _ => none

/-! ### Arrays -/

def Value.array? : Value → Option (Ref .array)
  | .array r => some r
  | _ => none

/-- The array and the place in it that two values stand for. -/
def locate (sequence index : Value) (line : Nat) : Run (Ref .array × Nat) := do
  let array ← ofOption line .notAnArray sequence.array?
  let length ← read fun h => (h.elements array).size
  let place ← ofExcept line (elementIndex length index)
  return (array, place)

def readElement (sequence index : Value) (line : Nat) : Run Value := do
  let (array, place) ← locate sequence index line
  read fun h => ((h.elements array)[place]?).getD .nil

def assignElement (sequence index value : Value) (line : Nat) : Run Value := do
  let (array, place) ← locate sequence index line
  change (·.setElement array place value)
  return value

/-! ### Calls -/

def Native.run (f : Native) (arguments : List Value) (line : Nat) : Run Value :=
  match f, arguments with
  | .len, .array r :: _ => do
    let length ← read fun h => (h.elements r).size
    return .number (Number.ofNat length)
  | .push, .array r :: value :: _ => do
    change (·.pushElement r value)
    let length ← read fun h => (h.elements r).size
    return .number (Number.ofNat length)
  | _, _ => fault line (.badArgument f)

def checkArity (expected found line : Nat) : Run Unit :=
  if found = expected then pure () else fault line (.arity expected found)

/-- Calls a value.  A class makes an instance, which its initializer sets up if it has one. -/
def call (invoke : Closure → List Value → Run Value) (callee : Value) (arguments : List Value)
    (line : Nat) : Run Value :=
  match callee with
  | .function r => do
    let closure ← ofOption line .notCallable (← read (·.closure? r))
    checkArity closure.decl.params.length arguments.length line
    invoke closure arguments
  | .native f => do
    checkArity f.arity arguments.length line
    f.run arguments line
  | .classObject r => do
    match ← read (·.method? r initName) with
    | none =>
      checkArity 0 arguments.length line
      let receiver ← make (·.addInstance r)
      return .instance receiver
    | some initializer =>
      checkArity initializer.decl.params.length arguments.length line
      let receiver ← make (·.addInstance r)
      let bound ← bindMethod initializer receiver
      let _ ← invoke bound arguments
      return .instance receiver
  | _ => fault line .notCallable

def bindParams (frame : Ref .frame) (params : List String) (arguments : List Value) (h : Heap) : Heap :=
  (params.zip arguments).foldl (fun h p => h.bind frame p.1 p.2) h

/-! ### Classes -/

/-- The superclass of a class declaration, which must be a class. -/
def readSuperclass (distances : Distances) (frame : Ref .frame) (line : Nat) :
    Option Use → Run (Option (Ref .classObject))
  | none => return none
  | some use => do
    match ← readVariable distances frame use with
    | .classObject r => return some r
    | _ => fault line .superclassNotClass

/-- The methods of a class by name, declared in a frame.  Of two methods of one name the later one
counts. -/
def methodTable (scope : Ref .frame) (methods : List FunctionDecl) : Table String Closure :=
  methods.foldl (fun t m => t.put m.name ⟨m, scope, m.name = initName⟩) []

/-- The frame of the methods of a class: with a superclass, one that binds `super`. -/
def methodScope (frame : Ref .frame) : Option (Ref .classObject) → Run (Ref .frame)
  | none => return frame
  | some superclass => do
    let scope ← make (·.addFrame frame)
    change (·.bind scope superName (.classObject superclass))
    return scope

/-- Declares a class.  Its name is bound to `nil` until the class is made. -/
def declareClass (distances : Distances) (frame : Ref .frame) (name : String)
    (superclass? : Option Use) (methods : List FunctionDecl) (line : Nat) : Run Unit := do
  let superclass ← readSuperclass distances frame line superclass?
  change (·.bind frame name .nil)
  let scope ← methodScope frame superclass
  let made ← make (·.addClass ⟨name, superclass, methodTable scope methods⟩)
  change (·.bind frame name (.classObject made))

/-! ### Expressions and statements -/

/-- What it takes to run a program: the value of an expression in a frame, a statement in a frame, and
a function on its arguments. -/
structure Evaluator where
  expr : Ref .frame → Expr → Run Value
  stmt : Ref .frame → Stmt → Run Flow
  invoke : Closure → List Value → Run Value

def Evaluator.starved : Evaluator :=
  ⟨fun _ _ => starve, fun _ _ => starve, fun _ _ => starve⟩

namespace Evaluator

variable (self : Evaluator) (distances : Distances)

def test (frame : Ref .frame) (e : Expr) : Run Bool := do
  let v ← self.expr frame e
  return v.truthy

def exprOrNil (frame : Ref .frame) : Option Expr → Run Value
  | none => return .nil
  | some e => self.expr frame e

/-- The value of an expression, with an evaluator for its parts.  Operands are looked at from left to
right. -/
def evalExpr (frame : Ref .frame) : Expr → Run Value
  | .literal value => return value.toValue
  | .group inner => self.expr frame inner
  | .unary op operand line => do
    let v ← self.expr frame operand
    ofExcept line (op.apply v)
  | .binary op left right line => do
    let l ← self.expr frame left
    if op.settledBy l then return l
    else
      let r ← self.expr frame right
      ofExcept line (op.apply l r)
  | .conditional test consequent alternative => do
    if ← self.test frame test then self.expr frame consequent else self.expr frame alternative
  | .var use => readVariable distances frame use
  | .assign target value => do
    let v ← self.expr frame value
    assignVariable distances frame target v
  | .thisRef id line => readVariable distances frame ⟨id, thisName, line⟩
  | .superRef id method line => readSuper distances frame id method line
  | .call callee arguments line => do
    let f ← self.expr frame callee
    let vs ← each (self.expr frame) arguments
    call self.invoke f vs line
  | .field object name line => do
    let v ← self.expr frame object
    let receiver ← ofOption line .propertyOfNonInstance v.instance?
    readProperty receiver name line
  | .setField object name value line => do
    let v ← self.expr frame object
    let receiver ← ofOption line .fieldOfNonInstance v.instance?
    let w ← self.expr frame value
    change (·.setField receiver name w)
    return w
  | .array elements => do
    let vs ← each (self.expr frame) elements
    let array ← make (·.addArray vs.toArray)
    return .array array
  | .element sequence index line => do
    let s ← self.expr frame sequence
    let i ← self.expr frame index
    readElement s i line
  | .setElement sequence index value line => do
    let s ← self.expr frame sequence
    let i ← self.expr frame index
    let v ← self.expr frame value
    assignElement s i v line

def textOf (frame : Ref .frame) (e : Expr) : Run String := do
  let v ← self.expr frame e
  read (·.render v)

def execInitial (frame : Ref .frame) : Option Stmt → Run Unit
  | none => return ()
  | some initial => do
    let _ ← self.stmt frame initial
    return ()

def testOrTrue (frame : Ref .frame) : Option Expr → Run Bool
  | none => return true
  | some e => self.test frame e

/-- The body of a `for` and, unless it leaves the loop, the step behind it. -/
def execRound (frame : Ref .frame) (body : Stmt) (step? : Option Expr) : Run Flow := do
  match ← self.stmt frame body with
  | .broke => return .broke
  | .returned value => return .returned value
  | .normal | .continued =>
    let _ ← self.exprOrNil frame step?
    return .normal

/-- Runs a statement, with an evaluator for its parts and at most `n` rounds of a loop. -/
def execStmt (n : Nat) (frame : Ref .frame) : Stmt → Run Flow
  | .expr value => do
    let _ ← self.expr frame value
    return .normal
  | .print items line => do
    let texts ← each (self.textOf frame) items
    printLine line (" ".intercalate texts)
    return .normal
  | .varDecl name initial? _ => do
    let v ← self.exprOrNil frame initial?
    change (·.bind frame name v)
    return .normal
  | .block body => do
    let inner ← make (·.addFrame frame)
    inOrder (self.stmt inner) body
  | .ifElse test consequent alternative? => do
    if ← self.test frame test then self.stmt frame consequent
    else
      match alternative? with
      | none => return .normal
      | some alternative => self.stmt frame alternative
  | .whileLoop test body => rounds n (self.test frame test) (self.stmt frame body)
  | .forLoop initial? test? step? body => do
    let inner ← make (·.addFrame frame)
    self.execInitial inner initial?
    rounds n (self.testOrTrue inner test?) (self.execRound inner body step?)
  | .breakLoop => return .broke
  | .continueLoop => return .continued
  | .funDecl decl => do
    let ref ← make (·.addClosure ⟨decl, frame, false⟩)
    change (·.bind frame decl.name (.function ref))
    return .normal
  | .returnValue value? _ => do
    let v ← self.exprOrNil frame value?
    return .returned v
  | .classDecl name superclass? methods line => do
    declareClass distances frame name superclass? methods line
    return .normal

/-- Runs a function in a frame of its own, with an evaluator for its body.  An initializer gives its
instance. -/
def invokeClosure (closure : Closure) (arguments : List Value) : Run Value := do
  let frame ← make (·.addFrame closure.scope)
  change (bindParams frame closure.decl.params arguments)
  let flow ← inOrder (self.stmt frame) closure.decl.body
  if closure.isInitializer then
    let this? ← read (·.binding? closure.scope thisName)
    return this?.getD .nil
  else
    match flow with
    | .returned value => return value
    | .normal | .broke | .continued => return .nil

end Evaluator

/-- The evaluator that goes `n` deep and gives each loop less than `n` rounds. -/
def evaluator (distances : Distances) : Nat → Evaluator
  | 0 => .starved
  | n + 1 =>
    ⟨fun frame e => (evaluator distances n).evalExpr distances frame e,
     fun frame s => (evaluator distances n).execStmt distances n frame s,
     fun closure arguments => (evaluator distances n).invokeClosure closure arguments⟩

/-- Runs the statements of a program one after the other with the global variables. -/
def interpret (self : Evaluator) : List Stmt → Run Unit
  | [] => return ()
  | s :: rest => do
    let _ ← self.stmt Heap.globals s
    interpret self rest

end Lox
