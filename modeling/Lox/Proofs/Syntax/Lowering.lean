import Mathlib.Data.Option.Basic
import Lox.Proofs.Syntax.Relabel
import Lox.Proofs.Scope.Walk

/-!
`for` loops written out with `while`. A program lowers to another one if that has the same statements, but that
some `for` loops are blocks with the first clause and a `while`, whose body is a block with the body of the `for`
and the step behind it. Ids may be others, for they are handed out in the order of the text. What the grammar asks
of a program holds of the other one too.
-/

namespace Lox

/-! ### Loops written out -/

mutual

/-- Whether a `continue` in a statement belongs to a loop around the statement. -/
def Stmt.continues : Stmt → Bool
  | .continueLoop => true
  | .block body => Stmt.continuesAny body
  | .ifElse _ consequent none => consequent.continues
  | .ifElse _ consequent (some alternative) => consequent.continues || alternative.continues
  | _ => false

def Stmt.continuesAny : List Stmt → Bool
  | [] => false
  | s :: ss => s.continues || Stmt.continuesAny ss

end

/-- The body of a `for` and the step behind it, as the body of a `while`. -/
def Stmt.roundForm (step? : Option Expr) (body : Stmt) : Stmt :=
  .block (body :: step?.toList.map .expr)

/-- A `for` with a `while` in its place. A test that is missing holds. -/
def Stmt.whileForm (initial? : Option Stmt) (test? step? : Option Expr) (body : Stmt) : Stmt :=
  .block (initial?.toList ++ [.whileLoop (test?.getD (.literal (.bool true))) (.roundForm step? body)])

/-! ### Expressions with other ids -/

mutual

/-- Two expressions that are the same but for references, which are related. -/
inductive Expr.Alike (R : Use → Use → Prop) : Expr → Expr → Prop
  | literal (value : Literal) : Expr.Alike R (.literal value) (.literal value)
  | group {inner inner' : Expr} : Expr.Alike R inner inner' → Expr.Alike R (.group inner) (.group inner')
  | unary (op : UnaryOp) {operand operand' : Expr} (line : Nat) : Expr.Alike R operand operand' →
    Expr.Alike R (.unary op operand line) (.unary op operand' line)
  | binary (op : BinaryOp) {left left' right right' : Expr} (line : Nat) : Expr.Alike R left left' →
    Expr.Alike R right right' → Expr.Alike R (.binary op left right line) (.binary op left' right' line)
  | conditional {test test' consequent consequent' alternative alternative' : Expr} : Expr.Alike R test test' →
    Expr.Alike R consequent consequent' → Expr.Alike R alternative alternative' →
    Expr.Alike R (.conditional test consequent alternative) (.conditional test' consequent' alternative')
  | var {use use' : Use} : R use use' → Expr.Alike R (.var use) (.var use')
  | assign {target target' : Use} {value value' : Expr} : R target target' → Expr.Alike R value value' →
    Expr.Alike R (.assign target value) (.assign target' value')
  | thisRef {id id' : Nat} (line : Nat) : R ⟨id, thisName, line⟩ ⟨id', thisName, line⟩ →
    Expr.Alike R (.thisRef id line) (.thisRef id' line)
  | superRef {id id' : Nat} (method : String) (line : Nat) : R ⟨id, superName, line⟩ ⟨id', superName, line⟩ →
    Expr.Alike R (.superRef id method line) (.superRef id' method line)
  | call {callee callee' : Expr} {arguments arguments' : List Expr} (line : Nat) : Expr.Alike R callee callee' →
    Expr.AlikeAll R arguments arguments' → Expr.Alike R (.call callee arguments line) (.call callee' arguments' line)
  | field {object object' : Expr} (name : String) (line : Nat) : Expr.Alike R object object' →
    Expr.Alike R (.field object name line) (.field object' name line)
  | setField {object object' value value' : Expr} (name : String) (line : Nat) : Expr.Alike R object object' →
    Expr.Alike R value value' → Expr.Alike R (.setField object name value line) (.setField object' name value' line)
  | array {elements elements' : List Expr} : Expr.AlikeAll R elements elements' →
    Expr.Alike R (.array elements) (.array elements')
  | element {sequence sequence' index index' : Expr} (line : Nat) : Expr.Alike R sequence sequence' →
    Expr.Alike R index index' → Expr.Alike R (.element sequence index line) (.element sequence' index' line)
  | setElement {sequence sequence' index index' value value' : Expr} (line : Nat) : Expr.Alike R sequence sequence' →
    Expr.Alike R index index' → Expr.Alike R value value' →
    Expr.Alike R (.setElement sequence index value line) (.setElement sequence' index' value' line)

inductive Expr.AlikeAll (R : Use → Use → Prop) : List Expr → List Expr → Prop
  | nil : Expr.AlikeAll R [] []
  | cons {e e' : Expr} {es es' : List Expr} : Expr.Alike R e e' → Expr.AlikeAll R es es' →
    Expr.AlikeAll R (e :: es) (e' :: es')

end

abbrev Expr.AlikeOpt (R : Use → Use → Prop) : Option Expr → Option Expr → Prop :=
  Option.Rel (Expr.Alike R)

/-- The same name on the same line, under any id. -/
def Use.SameButId (use use' : Use) : Prop :=
  use'.name = use.name ∧ use'.line = use.line

/-! ### Programs with loops written out -/

mutual

/-- A statement, and the same one with some of its `for` loops written out. The body of such a loop must not have a
`continue` of the loop, which would leave out the step. -/
inductive Stmt.Lowers : Stmt → Stmt → Prop
  | expr {value value' : Expr} : value.Alike Use.SameButId value' → Stmt.Lowers (.expr value) (.expr value')
  | print {items items' : List Expr} (line : Nat) : Expr.AlikeAll Use.SameButId items items' →
    Stmt.Lowers (.print items line) (.print items' line)
  | varDecl (name : String) {initial? initial'? : Option Expr} (line : Nat) :
    Expr.AlikeOpt Use.SameButId initial? initial'? →
    Stmt.Lowers (.varDecl name initial? line) (.varDecl name initial'? line)
  | block {body body' : List Stmt} : Stmt.LowersAll body body' → Stmt.Lowers (.block body) (.block body')
  | ifThen {test test' : Expr} {consequent consequent' : Stmt} : test.Alike Use.SameButId test' →
    Stmt.Lowers consequent consequent' → Stmt.Lowers (.ifElse test consequent none) (.ifElse test' consequent' none)
  | ifElse {test test' : Expr} {consequent consequent' alternative alternative' : Stmt} :
    test.Alike Use.SameButId test' → Stmt.Lowers consequent consequent' → Stmt.Lowers alternative alternative' →
    Stmt.Lowers (.ifElse test consequent (some alternative)) (.ifElse test' consequent' (some alternative'))
  | whileLoop {test test' : Expr} {body body' : Stmt} : test.Alike Use.SameButId test' → Stmt.Lowers body body' →
    Stmt.Lowers (.whileLoop test body) (.whileLoop test' body')
  | forLoop {test? test'? step? step'? : Option Expr} {body body' : Stmt} :
    Expr.AlikeOpt Use.SameButId test? test'? → Expr.AlikeOpt Use.SameButId step? step'? → Stmt.Lowers body body' →
    Stmt.Lowers (.forLoop none test? step? body) (.forLoop none test'? step'? body')
  | forFrom {initial initial' : Stmt} {test? test'? step? step'? : Option Expr} {body body' : Stmt} :
    Stmt.Lowers initial initial' → Expr.AlikeOpt Use.SameButId test? test'? →
    Expr.AlikeOpt Use.SameButId step? step'? → Stmt.Lowers body body' →
    Stmt.Lowers (.forLoop (some initial) test? step? body) (.forLoop (some initial') test'? step'? body')
  | lowered {test? test'? step? step'? : Option Expr} {body body' : Stmt} :
    Expr.AlikeOpt Use.SameButId test? test'? → Expr.AlikeOpt Use.SameButId step? step'? → Stmt.Lowers body body' →
    body.continues = false → Stmt.Lowers (.forLoop none test? step? body) (.whileForm none test'? step'? body')
  | loweredFrom {initial initial' : Stmt} {test? test'? step? step'? : Option Expr} {body body' : Stmt} :
    Stmt.Lowers initial initial' → Expr.AlikeOpt Use.SameButId test? test'? →
    Expr.AlikeOpt Use.SameButId step? step'? → Stmt.Lowers body body' → body.continues = false →
    Stmt.Lowers (.forLoop (some initial) test? step? body) (.whileForm (some initial') test'? step'? body')
  | breakLoop : Stmt.Lowers .breakLoop .breakLoop
  | continueLoop : Stmt.Lowers .continueLoop .continueLoop
  | funDecl {decl decl' : FunctionDecl} : FunctionDecl.Lowers decl decl' → Stmt.Lowers (.funDecl decl) (.funDecl decl')
  | returnValue {value? value'? : Option Expr} (line : Nat) : Expr.AlikeOpt Use.SameButId value? value'? →
    Stmt.Lowers (.returnValue value? line) (.returnValue value'? line)
  | classDecl (name : String) {superclass? superclass'? : Option Use} {methods methods' : List FunctionDecl}
    (line : Nat) : Option.Rel Use.SameButId superclass? superclass'? → FunctionDecl.LowersAll methods methods' →
    Stmt.Lowers (.classDecl name superclass? methods line) (.classDecl name superclass'? methods' line)

inductive FunctionDecl.Lowers : FunctionDecl → FunctionDecl → Prop
  | decl (name : String) (params : List String) (line : Nat) {body body' : List Stmt} : Stmt.LowersAll body body' →
    FunctionDecl.Lowers ⟨name, params, body, line⟩ ⟨name, params, body', line⟩

inductive Stmt.LowersAll : List Stmt → List Stmt → Prop
  | nil : Stmt.LowersAll [] []
  | cons {s s' : Stmt} {ss ss' : List Stmt} : Stmt.Lowers s s' → Stmt.LowersAll ss ss' →
    Stmt.LowersAll (s :: ss) (s' :: ss')

inductive FunctionDecl.LowersAll : List FunctionDecl → List FunctionDecl → Prop
  | nil : FunctionDecl.LowersAll [] []
  | cons {f f' : FunctionDecl} {fs fs' : List FunctionDecl} : FunctionDecl.Lowers f f' →
    FunctionDecl.LowersAll fs fs' → FunctionDecl.LowersAll (f :: fs) (f' :: fs')

end

/-! ### What stays of expressions -/

section Expressions

variable {R : Use → Use → Prop} {e e' : Expr} {e? e'? : Option Expr}

theorem Expr.Alike.level (alike : e.Alike R e') : e'.level = e.level := by
  cases alike <;> rfl

mutual

theorem Expr.Alike.stratified : ∀ (e : Expr) {e' : Expr}, e.Alike R e' → e.Stratified → e'.Stratified
  | .literal _, _, .literal _, _ => trivial
  | .group inner, _, .group alike, strata => alike.stratified inner strata
  | .unary _ operand _, _, .unary _ _ alike, strata => ⟨alike.level ▸ strata.1, alike.stratified operand strata.2⟩
  | .binary _ left right _, _, .binary _ _ first second, strata =>
    ⟨⟨first.level ▸ strata.1.1, first.stratified left strata.1.2⟩,
      second.level ▸ strata.2.1, second.stratified right strata.2.2⟩
  | .conditional test consequent alternative, _, .conditional first second third, strata =>
    ⟨⟨first.level ▸ strata.1.1, first.stratified test strata.1.2⟩,
      ⟨second.level ▸ strata.2.1.1, second.stratified consequent strata.2.1.2⟩,
      third.level ▸ strata.2.2.1, third.stratified alternative strata.2.2.2⟩
  | .var _, _, .var _, _ => trivial
  | .assign _ value, _, .assign _ alike, strata => ⟨alike.level ▸ strata.1, alike.stratified value strata.2⟩
  | .thisRef _ _, _, .thisRef _ _, _ => trivial
  | .superRef _ _ _, _, .superRef _ _ _, _ => trivial
  | .call callee arguments _, _, .call _ first others, strata =>
    ⟨⟨first.level ▸ strata.1.1, first.stratified callee strata.1.2⟩, others.stratified arguments strata.2⟩
  | .field object _ _, _, .field _ _ alike, strata => ⟨alike.level ▸ strata.1, alike.stratified object strata.2⟩
  | .setField object _ value _, _, .setField _ _ first second, strata =>
    ⟨⟨first.level ▸ strata.1.1, first.stratified object strata.1.2⟩,
      second.level ▸ strata.2.1, second.stratified value strata.2.2⟩
  | .array elements, _, .array all, strata => all.stratified elements strata
  | .element sequence index _, _, .element _ first second, strata =>
    ⟨⟨first.level ▸ strata.1.1, first.stratified sequence strata.1.2⟩, second.stratified index strata.2⟩
  | .setElement sequence index value _, _, .setElement _ first second third, strata =>
    ⟨⟨first.level ▸ strata.1.1, first.stratified sequence strata.1.2⟩, second.stratified index strata.2.1,
      third.level ▸ strata.2.2.1, third.stratified value strata.2.2.2⟩

theorem Expr.AlikeAll.stratified : ∀ (es : List Expr) {es' : List Expr}, Expr.AlikeAll R es es' →
    Expr.StratifiedAll es → Expr.StratifiedAll es'
  | [], _, .nil, _ => trivial
  | e :: es, _, .cons first others, strata =>
    ⟨⟨first.level ▸ strata.1.1, first.stratified e strata.1.2⟩, others.stratified es strata.2⟩

end

theorem Expr.AlikeOpt.stratified (alike : Expr.AlikeOpt R e? e'?) (strata : Expr.StratifiedOpt e?) :
    Expr.StratifiedOpt e'? := by
  intro e' present
  subst present
  cases alike with
  | some alike => exact alike.stratified _ (strata _ rfl)

end Expressions

mutual

/-- Ids are not among the tokens of an expression. -/
theorem Expr.Alike.tokens : ∀ (e : Expr) {e' : Expr}, e.Alike Use.SameButId e' → e'.tokens = e.tokens
  | .literal _, _, .literal _ => rfl
  | .group inner, _, .group alike => by rw [Expr.tokens, Expr.tokens, alike.tokens inner]
  | .unary _ operand _, _, .unary _ _ alike => by rw [Expr.tokens, Expr.tokens, alike.tokens operand]
  | .binary _ left right _, _, .binary _ _ first second => by
    rw [Expr.tokens, Expr.tokens, first.tokens left, second.tokens right]
  | .conditional test consequent alternative, _, .conditional first second third => by
    rw [Expr.tokens, Expr.tokens, first.tokens test, second.tokens consequent, third.tokens alternative]
  | .var _, _, .var same => by rw [Expr.tokens, Expr.tokens, same.1]
  | .assign _ value, _, .assign same alike => by rw [Expr.tokens, Expr.tokens, same.1, alike.tokens value]
  | .thisRef _ _, _, .thisRef _ _ => rfl
  | .superRef _ _ _, _, .superRef _ _ _ => rfl
  | .call callee arguments _, _, .call _ first others => by
    rw [Expr.tokens, Expr.tokens, first.tokens callee, others.itemTokens arguments]
  | .field object _ _, _, .field _ _ alike => by rw [Expr.tokens, Expr.tokens, alike.tokens object]
  | .setField object _ value _, _, .setField _ _ first second => by
    rw [Expr.tokens, Expr.tokens, first.tokens object, second.tokens value]
  | .array elements, _, .array all => by rw [Expr.tokens, Expr.tokens, all.itemTokens elements]
  | .element sequence index _, _, .element _ first second => by
    rw [Expr.tokens, Expr.tokens, first.tokens sequence, second.tokens index]
  | .setElement sequence index value _, _, .setElement _ first second third => by
    rw [Expr.tokens, Expr.tokens, first.tokens sequence, second.tokens index, third.tokens value]

theorem Expr.AlikeAll.itemTokens : ∀ (es : List Expr) {es' : List Expr}, Expr.AlikeAll Use.SameButId es es' →
    Expr.itemTokens es' = Expr.itemTokens es
  | [], _, .nil => rfl
  | e :: es, _, .cons first others => by
    rw [Expr.itemTokens, Expr.itemTokens, first.tokens e, others.moreTokens es]

theorem Expr.AlikeAll.moreTokens : ∀ (es : List Expr) {es' : List Expr}, Expr.AlikeAll Use.SameButId es es' →
    Expr.moreTokens es' = Expr.moreTokens es
  | [], _, .nil => rfl
  | e :: es, _, .cons first others => by
    rw [Expr.moreTokens, Expr.moreTokens, first.tokens e, others.moreTokens es]

end

theorem Expr.AlikeOpt.optTokens {e? e'? : Option Expr} (alike : Expr.AlikeOpt Use.SameButId e? e'?) :
    Expr.optTokens e'? = Expr.optTokens e? := by
  cases alike with
  | none => rfl
  | some alike => exact alike.tokens _

/-! ### The grammar of the other program -/

theorem Stmt.Lowers.plain {s s' : Stmt} (lowers : s.Lowers s') (plain : s.Plain) : s'.Plain := by
  cases lowers <;> exact plain

theorem Stmt.Lowers.initial {s s' : Stmt} (lowers : s.Lowers s') (initial : s.Initial) : s'.Initial := by
  cases lowers <;> exact initial

/-- A loop that is written out ends with a brace. -/
theorem Stmt.Lowers.endsOpen : ∀ (s : Stmt) {s' : Stmt}, s.Lowers s' → s.endsOpen = false → s'.endsOpen = false
  | .ifElse _ _ none, _, .ifThen _ _, closed => closed
  | .ifElse _ _ (some alternative), _, .ifElse _ _ lowers, closed => lowers.endsOpen alternative closed
  | .whileLoop _ body, _, .whileLoop _ lowers, closed => lowers.endsOpen body closed
  | .forLoop none _ _ body, _, .forLoop _ _ lowers, closed => lowers.endsOpen body closed
  | .forLoop (some _) _ _ body, _, .forFrom _ _ _ lowers, closed => lowers.endsOpen body closed
  | .forLoop none _ _ _, _, .lowered _ _ _ _, _ => rfl
  | .forLoop (some _) _ _ _, _, .loweredFrom _ _ _ _ _, _ => rfl
  | .expr _, _, .expr _, _ => rfl
  | .print _ _, _, .print _ _, _ => rfl
  | .varDecl _ _ _, _, .varDecl _ _ _, _ => rfl
  | .block _, _, .block _, _ => rfl
  | .breakLoop, _, .breakLoop, _ => rfl
  | .continueLoop, _, .continueLoop, _ => rfl
  | .funDecl _, _, .funDecl _, _ => rfl
  | .returnValue _ _, _, .returnValue _ _, _ => rfl
  | .classDecl _ _ _ _, _, .classDecl _ _ _ _, _ => rfl

theorem stratified_roundForm {step? : Option Expr} {body : Stmt} (strata : body.Stratified)
    (step : Expr.StratifiedOpt step?) : (Stmt.roundForm step? body).Stratified := by
  cases step? with
  | none => exact ⟨strata, trivial⟩
  | some e => exact ⟨strata, step e rfl, trivial⟩

theorem stratified_whileForm {test? step? : Option Expr} {body : Stmt} (test : Expr.StratifiedOpt test?)
    (step : Expr.StratifiedOpt step?) (strata : body.Stratified) :
    (Stmt.whileLoop (test?.getD (.literal (.bool true))) (.roundForm step? body)).Stratified := by
  refine ⟨?_, trivial, stratified_roundForm strata step⟩
  cases test? with
  | none => trivial
  | some e => exact test e rfl

mutual

theorem Stmt.Lowers.stratified : ∀ (s : Stmt) {s' : Stmt}, s.Lowers s' → s.Stratified → s'.Stratified
  | .expr value, _, .expr alike, strata => alike.stratified value strata
  | .print items _, _, .print _ all, strata => by
    refine ⟨?_, all.stratified items strata.2⟩
    cases all with
    | nil => exact absurd rfl strata.1
    | cons _ _ => exact List.cons_ne_nil _ _
  | .varDecl _ _ _, _, .varDecl _ _ alike, strata => alike.stratified strata
  | .block body, _, .block lowers, strata => lowers.stratified body strata
  | .ifElse test consequent none, _, .ifThen first second, strata =>
    ⟨first.stratified test strata.1, second.plain strata.2.1, second.stratified consequent strata.2.2⟩
  | .ifElse test consequent (some alternative), _, .ifElse first second third, strata =>
    ⟨first.stratified test strata.1, ⟨second.plain strata.2.1.1, second.stratified consequent strata.2.1.2.1,
      second.endsOpen _ strata.2.1.2.2⟩, third.plain strata.2.2.1, third.stratified alternative strata.2.2.2⟩
  | .whileLoop test body, _, .whileLoop first second, strata =>
    ⟨first.stratified test strata.1, second.plain strata.2.1, second.stratified body strata.2.2⟩
  | .forLoop none _ _ body, _, .forLoop test step lowers, strata =>
    ⟨test.stratified strata.1, step.stratified strata.2.1, lowers.plain strata.2.2.1,
      lowers.stratified body strata.2.2.2⟩
  | .forLoop (some initial) _ _ body, _, .forFrom first test step lowers,
      ⟨⟨starts, strata⟩, tests, steps, plain, inside⟩ =>
    ⟨⟨first.initial starts, first.stratified initial strata⟩, test.stratified tests, step.stratified steps,
      lowers.plain plain, lowers.stratified body inside⟩
  | .forLoop none _ _ body, _, .lowered test step lowers _, strata =>
    ⟨stratified_whileForm (test.stratified strata.1) (step.stratified strata.2.1)
      (lowers.stratified body strata.2.2.2), trivial⟩
  | .forLoop (some initial) _ _ body, _, .loweredFrom first test step lowers _,
      ⟨⟨_, strata⟩, tests, steps, _, inside⟩ =>
    ⟨first.stratified initial strata, stratified_whileForm (test.stratified tests) (step.stratified steps)
      (lowers.stratified body inside), trivial⟩
  | .breakLoop, _, .breakLoop, _ => trivial
  | .continueLoop, _, .continueLoop, _ => trivial
  | .funDecl decl, _, .funDecl lowers, strata => lowers.stratified decl strata
  | .returnValue _ _, _, .returnValue _ alike, strata => alike.stratified strata
  | .classDecl _ _ methods _, _, .classDecl _ _ _ lowers, strata => lowers.stratified methods strata

theorem FunctionDecl.Lowers.stratified : ∀ (f : FunctionDecl) {f' : FunctionDecl}, f.Lowers f' → f.Stratified →
    f'.Stratified
  | { name := _, params := _, body, line := _ }, _, .decl _ _ _ lowers, strata => lowers.stratified body strata

theorem Stmt.LowersAll.stratified : ∀ (ss : List Stmt) {ss' : List Stmt}, Stmt.LowersAll ss ss' →
    Stmt.StratifiedAll ss → Stmt.StratifiedAll ss'
  | [], _, .nil, _ => trivial
  | s :: ss, _, .cons first others, strata => ⟨first.stratified s strata.1, others.stratified ss strata.2⟩

theorem FunctionDecl.LowersAll.stratified : ∀ (fs : List FunctionDecl) {fs' : List FunctionDecl},
    FunctionDecl.LowersAll fs fs' → FunctionDecl.StratifiedAll fs → FunctionDecl.StratifiedAll fs'
  | [], _, .nil, _ => trivial
  | f :: fs, _, .cons first others, strata => ⟨first.stratified f strata.1, others.stratified fs strata.2⟩

end

theorem placed_roundForm {inLoop inFunction : Bool} {step? : Option Expr} {body : Stmt}
    (placed : body.Placed inLoop inFunction) : (Stmt.roundForm step? body).Placed inLoop inFunction := by
  cases step? with
  | none => exact ⟨placed, trivial⟩
  | some _ => exact ⟨placed, trivial, trivial⟩

mutual

theorem Stmt.Lowers.placed : ∀ (s : Stmt) {s' : Stmt} {inLoop inFunction : Bool}, s.Lowers s' →
    s.Placed inLoop inFunction → s'.Placed inLoop inFunction
  | .expr _, _, _, _, .expr _, _ => trivial
  | .print _ _, _, _, _, .print _ _, _ => trivial
  | .varDecl _ _ _, _, _, _, .varDecl _ _ _, _ => trivial
  | .block body, _, _, _, .block lowers, placed => lowers.placed body placed
  | .ifElse _ consequent none, _, _, _, .ifThen _ lowers, placed => lowers.placed consequent placed
  | .ifElse _ consequent (some alternative), _, _, _, .ifElse _ second third, placed =>
    ⟨second.placed consequent placed.1, third.placed alternative placed.2⟩
  | .whileLoop _ body, _, _, _, .whileLoop _ lowers, placed => lowers.placed body placed
  | .forLoop none _ _ body, _, _, _, .forLoop _ _ lowers, placed => lowers.placed body placed
  | .forLoop (some initial) _ _ body, _, _, _, .forFrom first _ _ lowers, placed =>
    ⟨first.placed initial placed.1, lowers.placed body placed.2⟩
  | .forLoop none _ _ body, _, _, _, .lowered _ _ lowers _, placed =>
    ⟨placed_roundForm (lowers.placed body placed), trivial⟩
  | .forLoop (some initial) _ _ body, _, _, _, .loweredFrom first _ _ lowers _, placed =>
    ⟨first.placed initial placed.1, placed_roundForm (lowers.placed body placed.2), trivial⟩
  | .breakLoop, _, _, _, .breakLoop, placed => placed
  | .continueLoop, _, _, _, .continueLoop, placed => placed
  | .funDecl decl, _, _, _, .funDecl lowers, placed => lowers.placed decl placed
  | .returnValue _ _, _, _, _, .returnValue _ _, placed => placed
  | .classDecl _ _ methods _, _, _, _, .classDecl _ _ _ lowers, placed => lowers.placed methods placed

theorem FunctionDecl.Lowers.placed : ∀ (f : FunctionDecl) {f' : FunctionDecl}, f.Lowers f' → f.Placed → f'.Placed
  | { name := _, params := _, body, line := _ }, _, .decl _ _ _ lowers, placed => lowers.placed body placed

theorem Stmt.LowersAll.placed : ∀ (ss : List Stmt) {ss' : List Stmt} {inLoop inFunction : Bool},
    Stmt.LowersAll ss ss' → Stmt.PlacedAll inLoop inFunction ss → Stmt.PlacedAll inLoop inFunction ss'
  | [], _, _, _, .nil, _ => trivial
  | s :: ss, _, _, _, .cons first others, placed => ⟨first.placed s placed.1, others.placed ss placed.2⟩

theorem FunctionDecl.LowersAll.placed : ∀ (fs : List FunctionDecl) {fs' : List FunctionDecl},
    FunctionDecl.LowersAll fs fs' → FunctionDecl.PlacedAll fs → FunctionDecl.PlacedAll fs'
  | [], _, .nil, _ => trivial
  | f :: fs, _, .cons first others, placed => ⟨first.placed f placed.1, others.placed fs placed.2⟩

end

/-! ### The names of the other program -/

theorem superclassTokens_same {use? use'? : Option Use} (same : Option.Rel Use.SameButId use? use'?) :
    superclassTokens use'? = superclassTokens use? := by
  cases same with
  | none => rfl
  | some same => rw [superclassTokens, superclassTokens, same.1]

theorem lexical_test {test? test'? : Option Expr} (alike : Expr.AlikeOpt Use.SameButId test? test'?)
    (lexical : Lexical (Expr.optTokens test?)) : Lexical (test'?.getD (.literal (.bool true))).tokens := by
  cases alike with
  | none => exact (lexical_cons_keyword (k := .trueWord)).mpr lexical_nil
  | some alike => exact alike.tokens _ ▸ lexical

theorem lexical_roundForm {step? step'? : Option Expr} {body : Stmt} (alike : Expr.AlikeOpt Use.SameButId step? step'?)
    (lexical : Lexical (Expr.optTokens step?)) (inside : Lexical body.tokens) :
    Lexical (Stmt.roundForm step'? body).tokens := by
  cases alike with
  | none => simpa [Stmt.roundForm, Stmt.tokens, Stmt.tokensAll] using inside
  | some alike => simpa [Stmt.roundForm, Stmt.tokens, Stmt.tokensAll, alike.tokens] using ⟨inside, lexical⟩

mutual

/-- No name is added. -/
theorem Stmt.Lowers.lexical : ∀ (s : Stmt) {s' : Stmt}, s.Lowers s' → Lexical s.tokens → Lexical s'.tokens
  | .expr value, _, .expr alike, lexical => by rwa [Stmt.tokens, alike.tokens value]
  | .print items _, _, .print _ all, lexical => by rwa [Stmt.tokens, all.itemTokens items]
  | .varDecl _ _ _, _, .varDecl _ _ alike, lexical => by
    cases alike with
    | none => exact lexical
    | some alike => rwa [Stmt.tokens, alike.tokens]
  | .block body, _, .block lowers, lexical => by
    simp only [Stmt.tokens, lexical_cons_mark, List.cons_append, lexical_append] at lexical ⊢
    exact ⟨lowers.lexical body lexical.1, lexical.2⟩
  | .ifElse test consequent none, _, .ifThen first second, lexical => by
    simp only [Stmt.tokens, lexical_cons_mark, lexical_cons_keyword, List.cons_append, lexical_append,
      first.tokens test] at lexical ⊢
    exact ⟨lexical.1, second.lexical consequent lexical.2⟩
  | .ifElse test consequent (some alternative), _, .ifElse first second third, lexical => by
    simp only [Stmt.tokens, lexical_cons_mark, lexical_cons_keyword, List.cons_append, List.append_assoc,
      lexical_append, first.tokens test] at lexical ⊢
    exact ⟨lexical.1, second.lexical consequent lexical.2.1, third.lexical alternative lexical.2.2⟩
  | .whileLoop test body, _, .whileLoop first second, lexical => by
    simp only [Stmt.tokens, lexical_cons_mark, lexical_cons_keyword, List.cons_append, lexical_append,
      first.tokens test] at lexical ⊢
    exact ⟨lexical.1, second.lexical body lexical.2⟩
  | .forLoop none _ _ body, _, .forLoop test step lowers, lexical => by
    simp only [Stmt.tokens, lexical_cons_mark, lexical_cons_keyword, List.cons_append, List.append_assoc,
      lexical_append, test.optTokens, step.optTokens] at lexical ⊢
    exact ⟨lexical.1, lexical.2.1, lowers.lexical body lexical.2.2⟩
  | .forLoop (some initial) _ _ body, _, .forFrom first test step lowers, lexical => by
    simp only [Stmt.tokens, lexical_cons_mark, lexical_cons_keyword, List.cons_append, List.append_assoc,
      lexical_append, test.optTokens, step.optTokens] at lexical ⊢
    exact ⟨first.lexical initial lexical.1, lexical.2.1, lexical.2.2.1, lowers.lexical body lexical.2.2.2⟩
  | .forLoop none _ _ body, _, .lowered test step lowers _, lexical => by
    simp only [Stmt.tokens, lexical_cons_mark, lexical_cons_keyword, List.cons_append, List.append_assoc,
      lexical_append] at lexical
    have round := lexical_roundForm step lexical.2.1 (lowers.lexical body lexical.2.2)
    simpa [Stmt.whileForm, Stmt.tokens, Stmt.tokensAll] using ⟨lexical_test test lexical.1, round⟩
  | .forLoop (some initial) _ _ body, _, .loweredFrom first test step lowers _, lexical => by
    simp only [Stmt.tokens, lexical_cons_mark, lexical_cons_keyword, List.cons_append, List.append_assoc,
      lexical_append] at lexical
    have round := lexical_roundForm step lexical.2.2.1 (lowers.lexical body lexical.2.2.2)
    simpa [Stmt.whileForm, Stmt.tokens, Stmt.tokensAll] using
      ⟨first.lexical initial lexical.1, lexical_test test lexical.2.1, round⟩
  | .breakLoop, _, .breakLoop, lexical => lexical
  | .continueLoop, _, .continueLoop, lexical => lexical
  | .funDecl decl, _, .funDecl lowers, lexical => by
    simp only [Stmt.tokens, lexical_cons_keyword] at lexical ⊢
    exact lowers.lexical decl lexical
  | .returnValue _ _, _, .returnValue _ alike, lexical => by rwa [Stmt.tokens, alike.optTokens]
  | .classDecl _ _ methods _, _, .classDecl _ _ superclass lowers, lexical => by
    simp only [Stmt.tokens, lexical_cons_mark, lexical_cons_keyword, lexical_cons_identifier, List.cons_append,
      List.append_assoc, lexical_append, superclassTokens_same superclass] at lexical ⊢
    exact ⟨lexical.1, lexical.2.1, lowers.lexical methods lexical.2.2.1, lexical.2.2.2⟩

theorem FunctionDecl.Lowers.lexical : ∀ (f : FunctionDecl) {f' : FunctionDecl}, f.Lowers f' → Lexical f.tokens →
    Lexical f'.tokens
  | { name := _, params := _, body, line := _ }, _, .decl _ _ _ lowers, lexical => by
    simp only [FunctionDecl.tokens, lexical_cons_mark, lexical_cons_identifier, List.cons_append,
      List.append_assoc, lexical_append] at lexical ⊢
    exact ⟨lexical.1, lexical.2.1, lowers.lexical body lexical.2.2.1, lexical.2.2.2⟩

theorem Stmt.LowersAll.lexical : ∀ (ss : List Stmt) {ss' : List Stmt}, Stmt.LowersAll ss ss' →
    Lexical (Stmt.tokensAll ss) → Lexical (Stmt.tokensAll ss')
  | [], _, .nil, lexical => lexical
  | s :: ss, _, .cons first others, lexical => by
    simp only [Stmt.tokensAll, lexical_append] at lexical ⊢
    exact ⟨first.lexical s lexical.1, others.lexical ss lexical.2⟩

theorem FunctionDecl.LowersAll.lexical : ∀ (fs : List FunctionDecl) {fs' : List FunctionDecl},
    FunctionDecl.LowersAll fs fs' → Lexical (FunctionDecl.tokensAll fs) → Lexical (FunctionDecl.tokensAll fs')
  | [], _, .nil, lexical => lexical
  | f :: fs, _, .cons first others, lexical => by
    simp only [FunctionDecl.tokensAll, lexical_append] at lexical ⊢
    exact ⟨first.lexical f lexical.1, others.lexical fs lexical.2⟩

end

/-! ### A program read later -/

section Shifts

variable (a b : Nat)

mutual

theorem Expr.alike_shift : ∀ e : Expr, (e.relabel (.shift a)).Alike Use.SameButId (e.relabel (.shift b))
  | .literal value => .literal value
  | .group inner => .group inner.alike_shift
  | .unary op operand line => .unary op line operand.alike_shift
  | .binary op left right line => .binary op line left.alike_shift right.alike_shift
  | .conditional test consequent alternative =>
    .conditional test.alike_shift consequent.alike_shift alternative.alike_shift
  | .var _ => .var ⟨rfl, rfl⟩
  | .assign _ value => .assign ⟨rfl, rfl⟩ value.alike_shift
  | .thisRef _ line => .thisRef line ⟨rfl, rfl⟩
  | .superRef _ method line => .superRef method line ⟨rfl, rfl⟩
  | .call callee arguments line => .call line callee.alike_shift (Expr.alikeAll_shift arguments)
  | .field object name line => .field name line object.alike_shift
  | .setField object name value line => .setField name line object.alike_shift value.alike_shift
  | .array elements => .array (Expr.alikeAll_shift elements)
  | .element sequence index line => .element line sequence.alike_shift index.alike_shift
  | .setElement sequence index value line =>
    .setElement line sequence.alike_shift index.alike_shift value.alike_shift

theorem Expr.alikeAll_shift : ∀ es : List Expr,
    Expr.AlikeAll Use.SameButId (Expr.relabelAll (.shift a) es) (Expr.relabelAll (.shift b) es)
  | [] => .nil
  | e :: es => .cons e.alike_shift (Expr.alikeAll_shift es)

end

theorem Expr.alikeOpt_shift (e? : Option Expr) :
    Expr.AlikeOpt Use.SameButId (e?.map (Expr.relabel (.shift a))) (e?.map (Expr.relabel (.shift b))) := by
  cases e? with
  | none => exact .none
  | some e => exact .some (e.alike_shift a b)

mutual

/-- No loop need be written out. -/
theorem Stmt.lowers_shift : ∀ s : Stmt, (s.relabel (.shift a)).Lowers (s.relabel (.shift b))
  | .expr value => .expr (value.alike_shift a b)
  | .print items line => .print line (Expr.alikeAll_shift a b items)
  | .varDecl name initial? line => .varDecl name line (Expr.alikeOpt_shift a b initial?)
  | .block body => .block (Stmt.lowersAll_shift body)
  | .ifElse test consequent none => .ifThen (test.alike_shift a b) consequent.lowers_shift
  | .ifElse test consequent (some alternative) =>
    .ifElse (test.alike_shift a b) consequent.lowers_shift alternative.lowers_shift
  | .whileLoop test body => .whileLoop (test.alike_shift a b) body.lowers_shift
  | .forLoop none test? step? body =>
    .forLoop (Expr.alikeOpt_shift a b test?) (Expr.alikeOpt_shift a b step?) body.lowers_shift
  | .forLoop (some initial) test? step? body =>
    .forFrom initial.lowers_shift (Expr.alikeOpt_shift a b test?) (Expr.alikeOpt_shift a b step?) body.lowers_shift
  | .breakLoop => .breakLoop
  | .continueLoop => .continueLoop
  | .funDecl decl => .funDecl decl.lowers_shift
  | .returnValue value? line => .returnValue line (Expr.alikeOpt_shift a b value?)
  | .classDecl name none methods line => .classDecl name line .none (FunctionDecl.lowersAll_shift methods)
  | .classDecl name (some _) methods line =>
    .classDecl name line (.some ⟨rfl, rfl⟩) (FunctionDecl.lowersAll_shift methods)

theorem FunctionDecl.lowers_shift : ∀ f : FunctionDecl, (f.relabel (.shift a)).Lowers (f.relabel (.shift b))
  | { name, params, body, line } => .decl name (params.map fun name => name) line (Stmt.lowersAll_shift body)

theorem Stmt.lowersAll_shift : ∀ ss : List Stmt,
    Stmt.LowersAll (Stmt.relabelAll (.shift a) ss) (Stmt.relabelAll (.shift b) ss)
  | [] => .nil
  | s :: ss => .cons s.lowers_shift (Stmt.lowersAll_shift ss)

theorem FunctionDecl.lowersAll_shift : ∀ fs : List FunctionDecl,
    FunctionDecl.LowersAll (FunctionDecl.relabelAll (.shift a) fs) (FunctionDecl.relabelAll (.shift b) fs)
  | [] => .nil
  | f :: fs => .cons f.lowers_shift (FunctionDecl.lowersAll_shift fs)

end

end Shifts

end Lox
