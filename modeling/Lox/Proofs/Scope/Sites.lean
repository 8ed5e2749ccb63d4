import Lox.Proofs.Syntax.Grammar
import Lox.Scope.Resolution

/-!
Where names are referred to. A `Site` is a reference together with the scopes around it and, of each,
the names whose declarations stand in front of the reference. It is read off the program alone, by
going through it from the front to the end, and says which scope a name has to mean: the innermost one
with that name.
-/

namespace Lox

/-! ### Scopes of a program -/

/-- The parts of a program that have a scope of their own. -/
inductive ScopeSite
  /-- A block, or a `for` with its loop variable. -/
  | stmt (s : Stmt)
  /-- The parameters and the body of a function or method. -/
  | function (decl : FunctionDecl)
  /-- The scope around the methods of a class that binds `super`. -/
  | superclass (decl : Stmt)
  /-- The scope around the methods of a class that binds `this`. -/
  | receiver (decl : Stmt)

/-- A scope around some place of a program, with the names declared in it up to there. -/
structure Place where
  scope : ScopeSite
  names : List String

/-- Declares a name in the innermost of some scopes. Names outside of all scopes are global and are not
kept. -/
def declareName (name : String) : List Place → List Place
  | [] => []
  | p :: chain => { p with names := name :: p.names } :: chain

/-- The scopes behind a statement. -/
def Stmt.after (chain : List Place) : Stmt → List Place
  | .varDecl name _ _ => declareName name chain
  | .funDecl decl => declareName decl.name chain
  | .classDecl name _ _ _ => declareName name chain
  | _ => chain

/-- The local variable whose initial value is being looked at. -/
def pendingName (name : String) : List Place → Option String
  | [] => none
  | _ :: _ => some name

/-- The scopes in which the methods of a class are declared. -/
def methodChain (decl : Stmt) (name : String) (chain : List Place) : Option Use → List Place
  | none => declareName name chain
  | some _ => ⟨.superclass decl, [superName]⟩ :: declareName name chain

/-- The scopes around the methods of a class when they run. -/
def boundChain (decl : Stmt) (name : String) (superclass? : Option Use) (chain : List Place) : List Place :=
  ⟨.receiver decl, [thisName]⟩ :: methodChain decl name chain superclass?

/-! ### References -/

/-- A node that refers to a variable, `this` or `super`. -/
structure Reference where
  id : Nat
  name : String
  /-- Whether it is what an assignment assigns to. -/
  assigned : Bool

mutual

/-- The references in an expression, in their order in the text. -/
def Expr.references : Expr → List Reference
  | .literal _ => []
  | .group inner => inner.references
  | .unary _ operand _ => operand.references
  | .binary _ left right _ => left.references ++ right.references
  | .conditional test consequent alternative =>
    test.references ++ (consequent.references ++ alternative.references)
  | .var use => [⟨use.id, use.name, false⟩]
  | .assign target value => ⟨target.id, target.name, true⟩ :: value.references
  | .thisRef id _ => [⟨id, thisName, false⟩]
  | .superRef id _ _ => [⟨id, superName, false⟩]
  | .call callee arguments _ => callee.references ++ Expr.referencesAll arguments
  | .field object _ _ => object.references
  | .setField object _ value _ => object.references ++ value.references
  | .array elements => Expr.referencesAll elements
  | .element sequence index _ => sequence.references ++ index.references
  | .setElement sequence index value _ =>
    sequence.references ++ (index.references ++ value.references)

def Expr.referencesAll : List Expr → List Reference
  | [] => []
  | e :: es => e.references ++ Expr.referencesAll es

end

def Expr.referencesOpt (e? : Option Expr) : List Reference :=
  Expr.referencesAll e?.toList

theorem Expr.referencesOpt_some (e : Expr) : Expr.referencesOpt (some e) = e.references :=
  List.append_nil _

def superclassReferences : Option Use → List Reference
  | none => []
  | some use => [⟨use.id, use.name, false⟩]

/-- A reference and the scopes around it, innermost first. -/
structure Site where
  chain : List Place
  /-- The local variable in whose initializer the reference stands. -/
  pending? : Option String
  reference : Reference

def sitesIn (chain : List Place) (pending? : Option String) (references : List Reference) : List Site :=
  references.map (Site.mk chain pending?)

mutual

/-- The references in a statement, with the scopes around them. -/
def Stmt.sites : Stmt → List Place → List Site
  | .expr value, chain => sitesIn chain none value.references
  | .print items _, chain => sitesIn chain none (Expr.referencesAll items)
  | .varDecl name initial? _, chain => sitesIn chain (pendingName name chain) (Expr.referencesOpt initial?)
  | .block body, chain => Stmt.sitesAll body (⟨.stmt (.block body), []⟩ :: chain)
  | .ifElse test consequent none, chain => sitesIn chain none test.references ++ consequent.sites chain
  | .ifElse test consequent (some alternative), chain =>
    sitesIn chain none test.references ++ (consequent.sites chain ++ alternative.sites chain)
  | .whileLoop test body, chain => sitesIn chain none test.references ++ body.sites chain
  | .forLoop none test? step? body, chain =>
    let inner := ⟨.stmt (.forLoop none test? step? body), []⟩ :: chain
    sitesIn inner none (Expr.referencesOpt test? ++ Expr.referencesOpt step?) ++ body.sites inner
  | .forLoop (some initial) test? step? body, chain =>
    let outer := ⟨.stmt (.forLoop (some initial) test? step? body), []⟩ :: chain
    let inner := initial.after outer
    initial.sites outer ++
      (sitesIn inner none (Expr.referencesOpt test? ++ Expr.referencesOpt step?) ++ body.sites inner)
  | .breakLoop, _ => []
  | .continueLoop, _ => []
  | .funDecl decl, chain => decl.sites (declareName decl.name chain)
  | .returnValue value? _, chain => sitesIn chain none (Expr.referencesOpt value?)
  | .classDecl name superclass? methods line, chain =>
    sitesIn chain none (superclassReferences superclass?) ++
      FunctionDecl.sitesAll methods
        (boundChain (.classDecl name superclass? methods line) name superclass? chain)

/-- The references in a function that is declared in some scopes. -/
def FunctionDecl.sites : FunctionDecl → List Place → List Site
  | { name, params, body, line }, chain =>
    Stmt.sitesAll body (⟨.function ⟨name, params, body, line⟩, params⟩ :: chain)

def Stmt.sitesAll : List Stmt → List Place → List Site
  | [], _ => []
  | s :: ss, chain => s.sites chain ++ Stmt.sitesAll ss (s.after chain)

def FunctionDecl.sitesAll : List FunctionDecl → List Place → List Site
  | [], _ => []
  | f :: fs, chain => f.sites chain ++ FunctionDecl.sitesAll fs chain

end

/-- Whether a name is declared at a place. -/
def Place.has (p : Place) (name : String) : Bool :=
  decide (name ∈ p.names)

/-- The number of scopes to go out for the innermost one with the name referred to. -/
def Site.distance? (site : Site) : Option Nat :=
  site.chain.findIdx? (·.has site.reference.name)

/-- Some distances send a reference where it belongs. A read in the initializer of its own variable is an
error; where an assignment there goes to is left open. -/
def Site.Agrees (distances : Distances) (site : Site) : Prop :=
  (site.pending? = some site.reference.name → site.reference.assigned = true) ∧
  (site.pending? ≠ some site.reference.name → distances.get? site.reference.id = site.distance?)

/-- The ids of references in order. -/
def siteIds (sites : List Site) : List Nat :=
  sites.map (·.reference.id)

end Lox
