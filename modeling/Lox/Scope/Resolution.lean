import Lox.Syntax.Tree
import Lox.Diagnostic
import Lox.Table

/-!
# Scopes

`resolve` finds, for each node that names a variable, `this` or `super`, the scope that it refers to,
as the number of scopes to go out from the innermost one.  Names that are in no scope are global and
have no entry.  On the way it finds declarations, returns and references that are out of place.
-/

namespace Lox

/-- The names of a scope.  A name is known once it has its initial value. -/
abbrev Scope : Type :=
  Table String Bool

/-- The number of scopes between a node and the scope that it refers to, by the id of the node. -/
abbrev Distances : Type :=
  Table Nat Nat

/-- What kind of function the innermost one around a place is. -/
inductive FunctionKind
  | none | function | method | initializer
deriving DecidableEq, Repr

/-- What kind of class the innermost one around a place is. -/
inductive ClassKind
  | none | base | derived
deriving DecidableEq, Repr

structure Resolution where
  scopes : List Scope
  distances : Distances
  diagnostics : List Diagnostic
  functionKind : FunctionKind
  classKind : ClassKind
deriving DecidableEq

/-- The name under which an instance is bound around its methods. -/
def thisName : String := "this"

/-- The name under which a superclass is bound around the methods of a class. -/
def superName : String := "super"

/-- The name of the methods that set up new instances. -/
def initName : String := "init"

namespace Resolution

def start : Resolution :=
  ⟨[], [], [], .none, .none⟩

def report (r : Resolution) (line : Nat) (error : StaticError) : Resolution :=
  { r with diagnostics := r.diagnostics ++ [.onLine line error] }

def openScope (r : Resolution) : Resolution :=
  { r with scopes := [] :: r.scopes }

def closeScope (r : Resolution) : Resolution :=
  { r with scopes := r.scopes.tail }

/-- Sets a name of the innermost scope.  At the top level names are global and not kept. -/
def setName (r : Resolution) (name : String) (known : Bool) : Resolution :=
  match r.scopes with
  | [] => r
  | scope :: outer => { r with scopes := scope.put name known :: outer }

def declares (r : Resolution) (name : String) : Bool :=
  r.scopes.head?.any (·.has name)

/-- Adds a name to the innermost scope, not known yet.  A scope has each name once. -/
def declare (r : Resolution) (name : String) (line : Nat) : Resolution :=
  let next := r.setName name false
  if r.declares name then next.report line (.alreadyDeclared name) else next

def define (r : Resolution) (name : String) : Resolution :=
  r.setName name true

/-- Records the scope that a name refers to: the innermost one that has it. -/
def refer (r : Resolution) (id : Nat) (name : String) : Resolution :=
  match r.scopes.findIdx? (·.has name) with
  | some distance => { r with distances := r.distances.put id distance }
  | none => r

/-- A read of a variable, which must be known in the innermost scope if it is a name of it. -/
def read (r : Resolution) (use : Use) : Resolution :=
  if r.scopes.head?.bind (·.get? use.name) = some false then
    (r.report use.line (.ownInitializer use.name)).refer use.id use.name
  else r.refer use.id use.name

end Resolution

open Resolution

mutual

/-- The walk over an expression.  An assigned value comes before its target. -/
def Expr.resolve : Expr → Resolution → Resolution
  | .literal _, r => r
  | .group inner, r => inner.resolve r
  | .unary _ operand _, r => operand.resolve r
  | .binary _ left right _, r => right.resolve (left.resolve r)
  | .conditional test consequent alternative, r =>
    alternative.resolve (consequent.resolve (test.resolve r))
  | .var use, r => r.read use
  | .assign target value, r => (value.resolve r).refer target.id target.name
  | .thisRef id line, r =>
    if r.classKind = .none then r.report line .thisOutsideClass else r.refer id thisName
  | .superRef id _ line, r =>
    if r.classKind = .derived then r.refer id superName else r.report line .superOutsideSubclass
  | .call callee arguments _, r => Expr.resolveAll arguments (callee.resolve r)
  | .field object _ _, r => object.resolve r
  | .setField object _ value _, r => object.resolve (value.resolve r)
  | .array elements, r => Expr.resolveAll elements r
  | .element sequence index _, r => index.resolve (sequence.resolve r)
  | .setElement sequence index value _, r => index.resolve (sequence.resolve (value.resolve r))

def Expr.resolveAll : List Expr → Resolution → Resolution
  | [], r => r
  | e :: es, r => Expr.resolveAll es (e.resolve r)

end

def Expr.resolveOpt (e? : Option Expr) (r : Resolution) : Resolution :=
  Expr.resolveAll e?.toList r

def declareParams (params : List String) (line : Nat) (r : Resolution) : Resolution :=
  params.foldl (fun r name => (r.declare name line).define name) r

/-- The walk over a return.  An initializer gives its instance and no other value. -/
def resolveReturn (value? : Option Expr) (line : Nat) (r : Resolution) : Resolution :=
  match value? with
  | none => r
  | some value =>
    value.resolve (if r.functionKind = .initializer then r.report line .returnFromInitializer else r)

/-- The scopes around the methods of a class: one that binds `super` if there is a superclass, and
within it one that binds `this`. -/
def enterClass (name : String) (superclass? : Option Use) (line : Nat) (r : Resolution) : Resolution :=
  let r := ({ r with classKind := .base }.declare name line).define name
  let r := match superclass? with
    | none => r
    | some use =>
      let r := if use.name = name then r.report use.line .inheritFromSelf else r
      (({ r with classKind := .derived }.read use).openScope).define superName
  r.openScope.define thisName

def leaveClass (superclass? : Option Use) (outer : ClassKind) (r : Resolution) : Resolution :=
  let r := r.closeScope
  let r := if superclass?.isSome then r.closeScope else r
  { r with classKind := outer }

def FunctionKind.ofMethod (name : String) : FunctionKind :=
  if name = initName then .initializer else .method

mutual

def Stmt.resolve : Stmt → Resolution → Resolution
  | .expr value, r => value.resolve r
  | .print items _, r => Expr.resolveAll items r
  | .varDecl name initial? line, r => (Expr.resolveOpt initial? (r.declare name line)).define name
  | .block body, r => (Stmt.resolveAll body r.openScope).closeScope
  | .ifElse test consequent none, r => consequent.resolve (test.resolve r)
  | .ifElse test consequent (some alternative), r =>
    alternative.resolve (consequent.resolve (test.resolve r))
  | .whileLoop test body, r => body.resolve (test.resolve r)
  | .forLoop none test? step? body, r =>
    (body.resolve (Expr.resolveOpt step? (Expr.resolveOpt test? r.openScope))).closeScope
  | .forLoop (some initial) test? step? body, r =>
    (body.resolve
      (Expr.resolveOpt step? (Expr.resolveOpt test? (initial.resolve r.openScope)))).closeScope
  | .breakLoop, r => r
  | .continueLoop, r => r
  | .funDecl decl, r => decl.resolve .function ((r.declare decl.name decl.line).define decl.name)
  | .returnValue value? line, r => resolveReturn value? line r
  | .classDecl name superclass? methods line, r =>
    leaveClass superclass? r.classKind
      (FunctionDecl.resolveMethods methods (enterClass name superclass? line r))

/-- The walk over a function.  Its parameters and its body are one scope. -/
def FunctionDecl.resolve : FunctionDecl → FunctionKind → Resolution → Resolution
  | { name := _, params, body, line }, kind, r =>
    let inner := declareParams params line { r with functionKind := kind }.openScope
    { (Stmt.resolveAll body inner).closeScope with functionKind := r.functionKind }

def Stmt.resolveAll : List Stmt → Resolution → Resolution
  | [], r => r
  | s :: ss, r => Stmt.resolveAll ss (s.resolve r)

def FunctionDecl.resolveMethods : List FunctionDecl → Resolution → Resolution
  | [], r => r
  | f :: fs, r => FunctionDecl.resolveMethods fs (f.resolve (.ofMethod f.name) r)

end

def resolve (program : List Stmt) : Resolution :=
  Stmt.resolveAll program .start

/-- The entries of a table of distances by ascending id. -/
def Distances.sorted (distances : Distances) : List (Nat × Nat) :=
  distances.mergeSort fun a b => a.1 ≤ b.1

end Lox
