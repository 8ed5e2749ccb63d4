import Lox.Scope.Resolution

/-!
What can be out of place in a program. An `Occurrence` is a node that may be out of place, with what is around it:
the blocks, functions and classes that enclose it, the names that are declared further up in the scope in which
it stands, and the variable in whose initializer it stands. Occurrences are listed as a walk comes by them, and
of each it is said, from what is around it alone, whether it is an error and which one.
-/

namespace Lox

/-! ### Around an occurrence -/

/-- A part of a program that may enclose others. -/
inductive Enclosure
  | block
  /-- A `for` with its loop variable. -/
  | loop
  | function
  | method (name : String)
  | classBody (superclass? : Option Use)
deriving DecidableEq

/-- The surroundings of a statement: what encloses it, innermost first, and the names that are declared in front of
it in the same scope. Outside of everything there is no scope but that of global variables. -/
structure Surroundings where
  enclosures : List Enclosure
  earlier : List String

namespace Surroundings

def top : Surroundings :=
  ⟨[], []⟩

/-- Within one enclosure more. -/
def enter (around : Surroundings) (enclosure : Enclosure) : Surroundings :=
  ⟨enclosure :: around.enclosures, []⟩

/-- Behind the declarations of some names. -/
def after (around : Surroundings) (names : List String) : Surroundings :=
  { around with earlier := names ++ around.earlier }

theorem after_after (around : Surroundings) (names more : List String) :
    (around.after names).after more = around.after (more ++ names) := by
  rw [after, after, after, List.append_assoc]

def innermostFunction? (around : Surroundings) : Option Enclosure :=
  around.enclosures.find? fun
    | .function | .method _ => true
    | _ => false

def innermostClass? (around : Surroundings) : Option Enclosure :=
  around.enclosures.find? fun
    | .classBody _ => true
    | _ => false

end Surroundings

/-! ### Nodes that may be out of place -/

inductive Node
  | thisRef
  | superRef
  /-- A return that gives a value. -/
  | returnValue
  /-- A class and the name of its superclass. -/
  | inherits (name superclass : String)
  /-- The declaration of a variable, a function, a class or a parameter. -/
  | declares (name : String)
  /-- A variable that is read. -/
  | reads (name : String)

/-- A node on a line. -/
structure Mention where
  node : Node
  line : Nat

structure Occurrence extends Mention where
  around : Surroundings
  /-- The variable in whose initializer the node stands. -/
  initializing? : Option String

/-- The error that an occurrence is, if it is one. -/
def Occurrence.error? (o : Occurrence) : Option StaticError :=
  match o.node with
  | .thisRef => if o.around.innermostClass? = none then some .thisOutsideClass else none
  | .superRef =>
    if o.around.innermostClass? = none ∨ o.around.innermostClass? = some (.classBody none) then
      some .superOutsideSubclass
    else none
  | .returnValue =>
    if o.around.innermostFunction? = some (.method initName) then some .returnFromInitializer else none
  | .inherits name superclass => if superclass = name then some .inheritFromSelf else none
  | .declares name =>
    if o.around.enclosures ≠ [] ∧ name ∈ o.around.earlier then some (.alreadyDeclared name) else none
  | .reads name =>
    if o.around.enclosures ≠ [] ∧ o.initializing? = some name then some (.ownInitializer name) else none

/-- The diagnostic for it. -/
def Occurrence.diagnostic? (o : Occurrence) : Option Diagnostic :=
  o.error?.map (.onLine o.line)

/-! ### Occurrences in order -/

mutual

/-- The nodes of an expression that may be out of place. An assigned value comes before its target, which is not
read. -/
def Expr.mentions : Expr → List Mention
  | .literal _ => []
  | .group inner => inner.mentions
  | .unary _ operand _ => operand.mentions
  | .binary _ left right _ => left.mentions ++ right.mentions
  | .conditional test consequent alternative =>
    test.mentions ++ (consequent.mentions ++ alternative.mentions)
  | .var use => [⟨.reads use.name, use.line⟩]
  | .assign _ value => value.mentions
  | .thisRef _ line => [⟨.thisRef, line⟩]
  | .superRef _ _ line => [⟨.superRef, line⟩]
  | .call callee arguments _ => callee.mentions ++ Expr.mentionsAll arguments
  | .field object _ _ => object.mentions
  | .setField object _ value _ => value.mentions ++ object.mentions
  | .array elements => Expr.mentionsAll elements
  | .element sequence index _ => sequence.mentions ++ index.mentions
  | .setElement sequence index value _ => value.mentions ++ (sequence.mentions ++ index.mentions)

def Expr.mentionsAll : List Expr → List Mention
  | [] => []
  | e :: es => e.mentions ++ Expr.mentionsAll es

end

def Expr.mentionsOpt (e? : Option Expr) : List Mention :=
  Expr.mentionsAll e?.toList

/-- Nodes that all have the same around them. -/
def occurrencesIn (around : Surroundings) (initializing? : Option String) (mentions : List Mention) :
    List Occurrence :=
  mentions.map fun mention => ⟨mention, around, initializing?⟩

/-- The names that a statement declares in the scope in which it stands. -/
def Stmt.declared : Stmt → List String
  | .varDecl name _ _ => [name]
  | .funDecl decl => [decl.name]
  | .classDecl name _ _ _ => [name]
  | .ifElse _ consequent none => consequent.declared
  | .ifElse _ consequent (some alternative) => alternative.declared ++ consequent.declared
  | .whileLoop _ body => body.declared
  | _ => []

/-- The parameters of a function, each declared behind the ones before it. -/
def paramOccurrences (line : Nat) : List String → Surroundings → List Occurrence
  | [], _ => []
  | name :: params, around =>
    ⟨⟨.declares name, line⟩, around, none⟩ :: paramOccurrences line params (around.after [name])

def returnMentions (line : Nat) : Option Expr → List Mention
  | none => []
  | some value => ⟨.returnValue, line⟩ :: value.mentions

def superclassMentions (name : String) : Option Use → List Mention
  | none => []
  | some use => [⟨.inherits name use.name, use.line⟩, ⟨.reads use.name, use.line⟩]

mutual

/-- The occurrences in a statement. -/
def Stmt.occurrences : Stmt → Surroundings → List Occurrence
  | .expr value, around => occurrencesIn around none value.mentions
  | .print items _, around => occurrencesIn around none (Expr.mentionsAll items)
  | .varDecl name initial? line, around =>
    occurrencesIn around none [⟨.declares name, line⟩] ++
      occurrencesIn around (some name) (Expr.mentionsOpt initial?)
  | .block body, around => Stmt.occurrencesAll body (around.enter .block)
  | .ifElse test consequent none, around =>
    occurrencesIn around none test.mentions ++ consequent.occurrences around
  | .ifElse test consequent (some alternative), around =>
    occurrencesIn around none test.mentions ++
      (consequent.occurrences around ++ alternative.occurrences (around.after consequent.declared))
  | .whileLoop test body, around => occurrencesIn around none test.mentions ++ body.occurrences around
  | .forLoop none test? step? body, around =>
    let inner := around.enter .loop
    occurrencesIn inner none (Expr.mentionsOpt test? ++ Expr.mentionsOpt step?) ++ body.occurrences inner
  | .forLoop (some initial) test? step? body, around =>
    let inner := (around.enter .loop).after initial.declared
    initial.occurrences (around.enter .loop) ++
      (occurrencesIn inner none (Expr.mentionsOpt test? ++ Expr.mentionsOpt step?) ++ body.occurrences inner)
  | .breakLoop, _ => []
  | .continueLoop, _ => []
  | .funDecl decl, around =>
    occurrencesIn around none [⟨.declares decl.name, decl.line⟩] ++ decl.occurrences .function around
  | .returnValue value? line, around => occurrencesIn around none (returnMentions line value?)
  | .classDecl name superclass? methods line, around =>
    occurrencesIn around none [⟨.declares name, line⟩] ++
      (occurrencesIn (around.after [name]) none (superclassMentions name superclass?) ++
        FunctionDecl.occurrencesAll methods (around.enter (.classBody superclass?)))

/-- The occurrences in a function or a method. Its parameters and its body are one scope. -/
def FunctionDecl.occurrences : FunctionDecl → Enclosure → Surroundings → List Occurrence
  | { name := _, params, body, line }, enclosure, around =>
    paramOccurrences line params (around.enter enclosure) ++
      Stmt.occurrencesAll body ((around.enter enclosure).after params)

def Stmt.occurrencesAll : List Stmt → Surroundings → List Occurrence
  | [], _ => []
  | s :: ss, around => s.occurrences around ++ Stmt.occurrencesAll ss (around.after s.declared)

/-- The occurrences in the methods of a class. -/
def FunctionDecl.occurrencesAll : List FunctionDecl → Surroundings → List Occurrence
  | [], _ => []
  | f :: fs, around => f.occurrences (.method f.name) around ++ FunctionDecl.occurrencesAll fs around

end

end Lox
