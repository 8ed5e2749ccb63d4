import Lox.Proofs.Scope.Walk
import Lox.Proofs.Syntax.Lowering

/-!
Distances with `for` loops written out. The body of such a loop is in one scope more, so a reference in it goes out
one scope further for everything that is declared outside of the body. `Stmt.Deepens` says this of a statement for
given distances, without the scopes by name, so that it can be kept for functions that are called later.
-/

namespace Lox

/-! ### Further scopes -/

/-- Of each scope around a place, innermost first, whether another program has a further one within it. -/
abbrev Gaps : Type :=
  List Bool

/-- How far out in the other program a scope is that is so far out in the given one. -/
def Gaps.out (gaps : Gaps) (n : Nat) : Nat :=
  n + (gaps.take (n + 1)).count true

namespace Gaps

variable (gaps : Gaps) (n : Nat)

@[simp] theorem out_nil : out [] n = n := by
  simp [out]

theorem out_head : out (false :: gaps) 0 = 0 := by
  simp [out]

theorem out_behind : out (false :: gaps) (n + 1) = out gaps n + 1 := by
  simp only [out, List.take_succ_cons, List.count_cons]
  simp
  omega

theorem out_further : out (true :: gaps) n = out (false :: gaps) n + 1 := by
  simp [out, List.take_succ_cons]
  omega

variable {gaps n}

theorem out_zero (none : gaps.headD false = false) : gaps.out 0 = 0 := by
  cases gaps with
  | nil => rfl
  | cons gap gaps =>
    obtain rfl : gap = false := none
    exact out_head gaps

theorem headD_of_not_mem (none : true ∉ gaps) : gaps.headD false = false := by
  cases gaps with
  | nil => rfl
  | cons gap gaps => cases gap <;> simp_all

theorem getD_of_not_mem (none : true ∉ gaps) : gaps.getD n false = false := by
  rw [List.getD_eq_getElem?_getD]
  cases found : gaps[n]? with
  | none => rfl
  | some gap =>
    have member := List.mem_of_getElem? found
    cases gap with
    | false => rfl
    | true => exact absurd member none

/-- With no further scopes everything is as far out as it was. -/
theorem out_of_not_mem (none : true ∉ gaps) : gaps.out n = n := by
  have count : (gaps.take (n + 1)).count true = 0 :=
    List.count_eq_zero.mpr fun member => none (List.mem_of_mem_take member)
  rw [out, count, Nat.add_zero]

/-- From a scope to the next one out there is one step, if nothing is between them. -/
theorem out_succ (none : gaps.getD (n + 1) false = false) : gaps.out (n + 1) = gaps.out n + 1 := by
  rw [out, out, List.take_add_one (i := n + 1), List.count_append]
  cases found : gaps[n + 1]? with
  | none =>
    simp
    omega
  | some gap =>
    rw [List.getD_eq_getElem?_getD, found] at none
    obtain rfl : gap = false := none
    simp
    omega

end Gaps

/-- The scopes around a place of a program and those around its place in another one, which has further ones without
a name of their own. Between `this` and `super` there is none. -/
inductive Gaps.Between : Gaps → List Place → List Place → Prop
  | outermost : Gaps.Between [] [] []
  | same {gaps : Gaps} {chain chain' : List Place} {p p' : Place} : p'.names = p.names →
    Gaps.Between gaps chain chain' → Gaps.Between (false :: gaps) (p :: chain) (p' :: chain')
  | further {gaps : Gaps} {chain chain' : List Place} {p p' : Place} : p'.names = [] → superName ∉ p.names →
    Gaps.Between (false :: gaps) (p :: chain) chain' → Gaps.Between (true :: gaps) (p :: chain) (p' :: chain')

namespace Gaps.Between

variable {gaps : Gaps} {chain chain' : List Place} {name : String}

theorem findIdx (between : gaps.Between chain chain') (name : String) :
    chain'.findIdx? (·.has name) = (chain.findIdx? (·.has name)).map gaps.out := by
  induction between with
  | outermost => rfl
  | @same gaps chain chain' p p' names _ ih =>
    have same : p'.has name = p.has name := by rw [Place.has, Place.has, names]
    rw [List.findIdx?_cons, List.findIdx?_cons, same, ih]
    split
    · rw [Option.map_some, out_head]
    · rw [Option.map_map, Option.map_map]
      congr 1
      funext n
      exact (out_behind gaps n).symm
  | @further gaps chain chain' p p' none _ _ ih =>
    have lacks : p'.has name = false := by rw [Place.has, none]; rfl
    rw [List.findIdx?_cons, lacks, ih]
    simp only [Bool.false_eq_true, if_false, Option.map_map]
    congr 1
    funext n
    exact (out_further gaps n).symm

theorem no_super (between : gaps.Between chain chain') {n : Nat}
    (found : chain.findIdx? (·.has superName) = some n) : gaps.getD n false = false := by
  induction between generalizing n with
  | outermost => cases found
  | same _ _ ih =>
    rw [List.findIdx?_cons] at found
    split at found
    · obtain rfl := Option.some.inj found
      rfl
    · obtain ⟨m, inner, rfl⟩ := Option.map_eq_some_iff.mp found
      exact ih inner
  | @further gaps chain chain' p p' _ lacks _ ih =>
    have before : p.has superName = false := by simp [Place.has, lacks]
    have behind := ih found
    rw [List.findIdx?_cons, before] at found
    obtain ⟨m, -, rfl⟩ := Option.map_eq_some_iff.mp found
    exact behind

theorem pendingName (between : gaps.Between chain chain') (name : String) :
    Lox.pendingName name chain' = Lox.pendingName name chain := by
  cases between <;> rfl

/-- A scope of both, with the same names. -/
theorem enter (between : gaps.Between chain chain') (scope scope' : ScopeSite) (names : List String) :
    Gaps.Between (false :: gaps) (⟨scope, names⟩ :: chain) (⟨scope', names⟩ :: chain') :=
  .same rfl between

/-- A further scope of the other program, within one that is not that of `super`. -/
theorem within {p : Place} (between : Gaps.Between (false :: gaps) (p :: chain) chain') (lacks : superName ∉ p.names)
    (scope : ScopeSite) : Gaps.Between (true :: gaps) (p :: chain) (⟨scope, []⟩ :: chain') :=
  .further rfl lacks between

/-- A declaration is in the innermost scope of both. -/
theorem declareName (between : gaps.Between chain chain') (innermost : gaps.headD false = false) (name : String) :
    gaps.Between (declareName name chain) (declareName name chain') := by
  cases between with
  | outermost => exact .outermost
  | same names behind => exact .same (congrArg (name :: ·) names) behind
  | further _ _ _ => cases innermost

end Gaps.Between

/-! ### References -/

/-- What is known of the references of two programs when they run: their distances, and the first ids that are not
handed out yet. -/
structure Bearings where
  distances : Distances
  distances' : Distances
  nextId : Nat
  nextId' : Nat

/-- Two references to the same thing, across further scopes. -/
structure Bearings.Moved (K : Bearings) (gaps : Gaps) (use use' : Use) : Prop extends use.SameButId use' where
  below : use.id < K.nextId
  below' : use'.id < K.nextId'
  distance : K.distances'.get? use'.id = (K.distances.get? use.id).map gaps.out
  super : use.name = superName → ∀ n, K.distances.get? use.id = some n → gaps.getD n false = false

/-- Some distances send a reference where it belongs, and its id has been handed out. -/
structure Site.Settled (distances : Distances) (nextId : Nat) (site : Site) : Prop extends site.Sent distances where
  below : site.reference.id < nextId

section References

variable {K : Bearings} {gaps : Gaps} {chain chain' : List Place} {pending? : Option String}

theorem moved_of_settled (between : gaps.Between chain chain') (local_ : pending? = none ∨ gaps.headD false = false)
    {use use' : Use} (same : use.SameButId use') {assigned assigned' : Bool}
    (settled : Site.Settled K.distances K.nextId ⟨chain, pending?, ⟨use.id, use.name, assigned⟩⟩)
    (settled' : Site.Settled K.distances' K.nextId' ⟨chain', pending?, ⟨use'.id, use'.name, assigned'⟩⟩) :
    K.Moved gaps use use' := by
  by_cases own : pending? = some use.name
  · -- In the initializer of its own variable, which is in the innermost scope of both.
    have here : K.distances.get? use.id = some 0 := (settled.own own).2
    have here' : K.distances'.get? use'.id = some 0 := (settled'.own (own.trans (congrArg some same.1.symm))).2
    have none : gaps.headD false = false := local_.resolve_left (by simp [own])
    refine ⟨same, settled.below, settled'.below, ?_, fun _ n found => ?_⟩
    · rw [here, here', Option.map_some, Gaps.out_zero none]
    · obtain rfl : 0 = n := Option.some.inj (here.symm.trans found)
      cases gaps <;> exact none
  · have found : K.distances.get? use.id = chain.findIdx? (·.has use.name) := settled.other own
    have found' : K.distances'.get? use'.id = chain'.findIdx? (·.has use'.name) :=
      settled'.other fun pending => own (pending.trans (congrArg some same.1))
    refine ⟨same, settled.below, settled'.below, ?_, fun special n distance => ?_⟩
    · rw [found', found, same.1, between.findIdx]
    · rw [found, special] at distance
      exact between.no_super distance

end References

/-! ### Expressions -/

section Expressions

variable {R S : Use → Use → Prop} {P Q : Reference → Prop}

mutual

/-- References that are related in one way are related in another one, by what is known of each. -/
theorem Expr.Alike.refine : ∀ (e : Expr) {e' : Expr}, e.Alike R e' →
    (∀ use use' assigned, R use use' → P ⟨use.id, use.name, assigned⟩ → Q ⟨use'.id, use'.name, assigned⟩ → S use use') →
    (∀ ref ∈ e.references, P ref) → (∀ ref ∈ e'.references, Q ref) → e.Alike S e'
  | .literal _, _, .literal value, _, _, _ => .literal value
  | .group inner, _, .group alike, step, left, right => .group (alike.refine inner step left right)
  | .unary _ operand _, _, .unary op line alike, step, left, right =>
    .unary op line (alike.refine operand step left right)
  | .binary _ l r _, _, .binary op line first second, step, left, right => by
    simp only [Expr.references, List.forall_mem_append] at left right
    exact .binary op line (first.refine l step left.1 right.1) (second.refine r step left.2 right.2)
  | .conditional test consequent alternative, _, .conditional first second third, step, left, right => by
    simp only [Expr.references, List.forall_mem_append] at left right
    exact .conditional (first.refine test step left.1 right.1) (second.refine consequent step left.2.1 right.2.1)
      (third.refine alternative step left.2.2 right.2.2)
  | .var _, _, .var related, step, left, right =>
    .var (step _ _ _ related (left _ List.mem_cons_self) (right _ List.mem_cons_self))
  | .assign _ value, _, .assign related alike, step, left, right => by
    simp only [Expr.references, List.forall_mem_cons] at left right
    exact .assign (step _ _ _ related left.1 right.1) (alike.refine value step left.2 right.2)
  | .thisRef _ _, _, .thisRef line related, step, left, right =>
    .thisRef line (step _ _ _ related (left _ List.mem_cons_self) (right _ List.mem_cons_self))
  | .superRef _ _ _, _, .superRef method line related, step, left, right =>
    .superRef method line (step _ _ _ related (left _ List.mem_cons_self) (right _ List.mem_cons_self))
  | .call callee arguments _, _, .call line first others, step, left, right => by
    simp only [Expr.references, List.forall_mem_append] at left right
    exact .call line (first.refine callee step left.1 right.1) (others.refine arguments step left.2 right.2)
  | .field object _ _, _, .field name line alike, step, left, right =>
    .field name line (alike.refine object step left right)
  | .setField object _ value _, _, .setField name line first second, step, left, right => by
    simp only [Expr.references, List.forall_mem_append] at left right
    exact .setField name line (first.refine object step left.1 right.1) (second.refine value step left.2 right.2)
  | .array elements, _, .array all, step, left, right => .array (all.refine elements step left right)
  | .element sequence index _, _, .element line first second, step, left, right => by
    simp only [Expr.references, List.forall_mem_append] at left right
    exact .element line (first.refine sequence step left.1 right.1) (second.refine index step left.2 right.2)
  | .setElement sequence index value _, _, .setElement line first second third, step, left, right => by
    simp only [Expr.references, List.forall_mem_append] at left right
    exact .setElement line (first.refine sequence step left.1 right.1) (second.refine index step left.2.1 right.2.1)
      (third.refine value step left.2.2 right.2.2)

theorem Expr.AlikeAll.refine : ∀ (es : List Expr) {es' : List Expr}, Expr.AlikeAll R es es' →
    (∀ use use' assigned, R use use' → P ⟨use.id, use.name, assigned⟩ → Q ⟨use'.id, use'.name, assigned⟩ → S use use') →
    (∀ ref ∈ Expr.referencesAll es, P ref) → (∀ ref ∈ Expr.referencesAll es', Q ref) → Expr.AlikeAll S es es'
  | [], _, .nil, _, _, _ => .nil
  | e :: es, _, .cons first others, step, left, right => by
    simp only [Expr.referencesAll, List.forall_mem_append] at left right
    exact .cons (first.refine e step left.1 right.1) (others.refine es step left.2 right.2)

end

theorem Expr.AlikeOpt.refine {e? e'? : Option Expr} (alike : Expr.AlikeOpt R e? e'?)
    (step : ∀ use use' assigned, R use use' → P ⟨use.id, use.name, assigned⟩ → Q ⟨use'.id, use'.name, assigned⟩ →
      S use use')
    (left : ∀ ref ∈ Expr.referencesOpt e?, P ref) (right : ∀ ref ∈ Expr.referencesOpt e'?, Q ref) :
    Expr.AlikeOpt S e? e'? := by
  cases alike with
  | none => exact .none
  | some alike =>
    rw [Expr.referencesOpt_some] at left right
    exact .some (alike.refine _ step left right)

variable (implied : ∀ use use', R use use' → S use use')
include implied

theorem Expr.Alike.mono {e e' : Expr} (alike : e.Alike R e') : e.Alike S e' :=
  alike.refine (P := fun _ => True) (Q := fun _ => True) e (fun use use' _ related _ _ => implied use use' related)
    (fun _ _ => trivial) fun _ _ => trivial

theorem Expr.AlikeAll.mono {es es' : List Expr} (alike : Expr.AlikeAll R es es') : Expr.AlikeAll S es es' :=
  alike.refine (P := fun _ => True) (Q := fun _ => True) es (fun use use' _ related _ _ => implied use use' related)
    (fun _ _ => trivial) fun _ _ => trivial

theorem Expr.AlikeOpt.mono {e? e'? : Option Expr} (alike : Expr.AlikeOpt R e? e'?) : Expr.AlikeOpt S e? e'? :=
  alike.refine (P := fun _ => True) (Q := fun _ => True) (fun use use' _ related _ _ => implied use use' related)
    (fun _ _ => trivial) fun _ _ => trivial

end Expressions

/-! ### Statements -/

/-- The scopes around the methods of a class when they are not bound to an instance yet. -/
def Gaps.ofMethods (superclass? : Option Use) (gaps : Gaps) : Gaps :=
  match superclass? with
  | none => gaps
  | some _ => false :: gaps

mutual

/-- A statement and the same one with some of its `for` loops written out, in scopes with further ones in between. What
is declared is declared in a scope that has no further one within it. -/
inductive Stmt.Deepens (R : Gaps → Use → Use → Prop) : Gaps → Stmt → Stmt → Prop
  | expr {gaps : Gaps} {value value' : Expr} : value.Alike (R gaps) value' →
    Stmt.Deepens R gaps (.expr value) (.expr value')
  | print {gaps : Gaps} {items items' : List Expr} (line : Nat) : Expr.AlikeAll (R gaps) items items' →
    Stmt.Deepens R gaps (.print items line) (.print items' line)
  | varDecl {gaps : Gaps} (name : String) {initial? initial'? : Option Expr} (line : Nat) :
    gaps.headD false = false → Expr.AlikeOpt (R gaps) initial? initial'? →
    Stmt.Deepens R gaps (.varDecl name initial? line) (.varDecl name initial'? line)
  | block {gaps : Gaps} {body body' : List Stmt} : Stmt.DeepensAll R (false :: gaps) body body' →
    Stmt.Deepens R gaps (.block body) (.block body')
  | ifThen {gaps : Gaps} {test test' : Expr} {consequent consequent' : Stmt} : test.Alike (R gaps) test' →
    Stmt.Deepens R gaps consequent consequent' →
    Stmt.Deepens R gaps (.ifElse test consequent none) (.ifElse test' consequent' none)
  | ifElse {gaps : Gaps} {test test' : Expr} {consequent consequent' alternative alternative' : Stmt} :
    test.Alike (R gaps) test' → Stmt.Deepens R gaps consequent consequent' →
    Stmt.Deepens R gaps alternative alternative' →
    Stmt.Deepens R gaps (.ifElse test consequent (some alternative))
      (.ifElse test' consequent' (some alternative'))
  | whileLoop {gaps : Gaps} {test test' : Expr} {body body' : Stmt} : test.Alike (R gaps) test' →
    Stmt.Deepens R gaps body body' → Stmt.Deepens R gaps (.whileLoop test body) (.whileLoop test' body')
  | forLoop {gaps : Gaps} {test? test'? step? step'? : Option Expr} {body body' : Stmt} :
    Expr.AlikeOpt (R (false :: gaps)) test? test'? → Expr.AlikeOpt (R (false :: gaps)) step? step'? →
    Stmt.Deepens R (false :: gaps) body body' →
    Stmt.Deepens R gaps (.forLoop none test? step? body) (.forLoop none test'? step'? body')
  | forFrom {gaps : Gaps} {initial initial' : Stmt} {test? test'? step? step'? : Option Expr} {body body' : Stmt} :
    Stmt.Deepens R (false :: gaps) initial initial' → Expr.AlikeOpt (R (false :: gaps)) test? test'? →
    Expr.AlikeOpt (R (false :: gaps)) step? step'? → Stmt.Deepens R (false :: gaps) body body' →
    Stmt.Deepens R gaps (.forLoop (some initial) test? step? body)
      (.forLoop (some initial') test'? step'? body')
  | lowered {gaps : Gaps} {test? test'? step? step'? : Option Expr} {body body' : Stmt} :
    Expr.AlikeOpt (R (false :: gaps)) test? test'? → Expr.AlikeOpt (R (true :: gaps)) step? step'? →
    Stmt.Deepens R (true :: gaps) body body' → body.continues = false →
    Stmt.Deepens R gaps (.forLoop none test? step? body) (.whileForm none test'? step'? body')
  | loweredFrom {gaps : Gaps} {initial initial' : Stmt} {test? test'? step? step'? : Option Expr}
    {body body' : Stmt} : initial.Initial → Stmt.Deepens R (false :: gaps) initial initial' →
    Expr.AlikeOpt (R (false :: gaps)) test? test'? → Expr.AlikeOpt (R (true :: gaps)) step? step'? →
    Stmt.Deepens R (true :: gaps) body body' → body.continues = false →
    Stmt.Deepens R gaps (.forLoop (some initial) test? step? body) (.whileForm (some initial') test'? step'? body')
  | breakLoop {gaps : Gaps} : Stmt.Deepens R gaps .breakLoop .breakLoop
  | continueLoop {gaps : Gaps} : Stmt.Deepens R gaps .continueLoop .continueLoop
  | funDecl {gaps : Gaps} {decl decl' : FunctionDecl} : gaps.headD false = false →
    FunctionDecl.Deepens R gaps decl decl' → Stmt.Deepens R gaps (.funDecl decl) (.funDecl decl')
  | returnValue {gaps : Gaps} {value? value'? : Option Expr} (line : Nat) : Expr.AlikeOpt (R gaps) value? value'? →
    Stmt.Deepens R gaps (.returnValue value? line) (.returnValue value'? line)
  | classDecl {gaps : Gaps} (name : String) {superclass? superclass'? : Option Use}
    {methods methods' : List FunctionDecl} (line : Nat) : gaps.headD false = false →
    Option.Rel (R gaps) superclass? superclass'? →
    FunctionDecl.DeepensAll R (false :: gaps.ofMethods superclass?) methods methods' →
    Stmt.Deepens R gaps (.classDecl name superclass? methods line) (.classDecl name superclass'? methods' line)

inductive FunctionDecl.Deepens (R : Gaps → Use → Use → Prop) : Gaps → FunctionDecl → FunctionDecl → Prop
  | decl {gaps : Gaps} (name : String) (params : List String) (line : Nat) {body body' : List Stmt} :
    Stmt.DeepensAll R (false :: gaps) body body' →
    FunctionDecl.Deepens R gaps ⟨name, params, body, line⟩ ⟨name, params, body', line⟩

inductive Stmt.DeepensAll (R : Gaps → Use → Use → Prop) : Gaps → List Stmt → List Stmt → Prop
  | nil {gaps : Gaps} : Stmt.DeepensAll R gaps [] []
  | cons {gaps : Gaps} {s s' : Stmt} {ss ss' : List Stmt} : Stmt.Deepens R gaps s s' →
    Stmt.DeepensAll R gaps ss ss' → Stmt.DeepensAll R gaps (s :: ss) (s' :: ss')

inductive FunctionDecl.DeepensAll (R : Gaps → Use → Use → Prop) :
    Gaps → List FunctionDecl → List FunctionDecl → Prop
  | nil {gaps : Gaps} : FunctionDecl.DeepensAll R gaps [] []
  | cons {gaps : Gaps} {f f' : FunctionDecl} {fs fs' : List FunctionDecl} : FunctionDecl.Deepens R gaps f f' →
    FunctionDecl.DeepensAll R gaps fs fs' → FunctionDecl.DeepensAll R gaps (f :: fs) (f' :: fs')

end

section Mono

variable {R S : Gaps → Use → Use → Prop}

mutual

theorem Stmt.Deepens.mono : ∀ (s : Stmt) {s' : Stmt} {gaps : Gaps},
    (∀ gaps use use', R gaps use use' → S gaps use use') → s.Deepens R gaps s' → s.Deepens S gaps s'
  | .expr _, _, _, implied, .expr alike => .expr (alike.mono (implied _))
  | .print _ _, _, _, implied, .print line all => .print line (all.mono (implied _))
  | .varDecl _ _ _, _, _, implied, .varDecl name line here alike =>
    .varDecl name line here (alike.mono (implied _))
  | .block body, _, _, implied, .block deepens => .block (deepens.mono body implied)
  | .ifElse _ consequent none, _, _, implied, .ifThen test one =>
    .ifThen (test.mono (implied _)) (one.mono consequent implied)
  | .ifElse _ consequent (some alternative), _, _, implied, .ifElse test one other =>
    .ifElse (test.mono (implied _)) (one.mono consequent implied) (other.mono alternative implied)
  | .whileLoop _ body, _, _, implied, .whileLoop test deepens =>
    .whileLoop (test.mono (implied _)) (deepens.mono body implied)
  | .forLoop none _ _ body, _, _, implied, .forLoop test step deepens =>
    .forLoop (test.mono (implied _)) (step.mono (implied _)) (deepens.mono body implied)
  | .forLoop (some initial) _ _ body, _, _, implied, .forFrom initials test step deepens =>
    .forFrom (initials.mono initial implied) (test.mono (implied _)) (step.mono (implied _))
      (deepens.mono body implied)
  | .forLoop none _ _ body, _, _, implied, .lowered test step deepens own =>
    .lowered (test.mono (implied _)) (step.mono (implied _)) (deepens.mono body implied) own
  | .forLoop (some initial) _ _ body, _, _, implied, .loweredFrom starts initials test step deepens own =>
    .loweredFrom starts (initials.mono initial implied) (test.mono (implied _))
      (step.mono (implied _)) (deepens.mono body implied) own
  | .breakLoop, _, _, _, .breakLoop => .breakLoop
  | .continueLoop, _, _, _, .continueLoop => .continueLoop
  | .funDecl decl, _, _, implied, .funDecl here deepens => .funDecl here (deepens.mono decl implied)
  | .returnValue _ _, _, _, implied, .returnValue line alike => .returnValue line (alike.mono (implied _))
  | .classDecl _ _ methods _, _, _, implied, .classDecl name line here superclass deepens => by
    refine .classDecl name line here ?_ (deepens.mono methods implied)
    cases superclass with
    | none => exact .none
    | some related => exact .some (implied _ _ _ related)

theorem FunctionDecl.Deepens.mono : ∀ (f : FunctionDecl) {f' : FunctionDecl} {gaps : Gaps},
    (∀ gaps use use', R gaps use use' → S gaps use use') → f.Deepens R gaps f' → f.Deepens S gaps f'
  | { name := _, params := _, body, line := _ }, _, _, implied, .decl name params line deepens =>
    .decl name params line (deepens.mono body implied)

theorem Stmt.DeepensAll.mono : ∀ (ss : List Stmt) {ss' : List Stmt} {gaps : Gaps},
    (∀ gaps use use', R gaps use use' → S gaps use use') → Stmt.DeepensAll R gaps ss ss' →
    Stmt.DeepensAll S gaps ss ss'
  | [], _, _, _, .nil => .nil
  | s :: ss, _, _, implied, .cons one others => .cons (one.mono s implied) (others.mono ss implied)

theorem FunctionDecl.DeepensAll.mono : ∀ (fs : List FunctionDecl) {fs' : List FunctionDecl} {gaps : Gaps},
    (∀ gaps use use', R gaps use use' → S gaps use use') →
    FunctionDecl.DeepensAll R gaps fs fs' → FunctionDecl.DeepensAll S gaps fs fs'
  | [], _, _, _, .nil => .nil
  | f :: fs, _, _, implied, .cons one others => .cons (one.mono f implied) (others.mono fs implied)

end

end Mono

/-! ### Loops written out -/

/-- Each of some references is settled. -/
def SettledAll (distances : Distances) (nextId : Nat) (sites : List Site) : Prop :=
  ∀ site ∈ sites, site.Settled distances nextId

theorem settled_append {d : Distances} {n : Nat} {as bs : List Site} :
    SettledAll d n (as ++ bs) ↔ SettledAll d n as ∧ SettledAll d n bs :=
  List.forall_mem_append

theorem settled_sitesIn {d : Distances} {n : Nat} {chain : List Place} {pending? : Option String}
    {references : List Reference} : SettledAll d n (sitesIn chain pending? references) ↔
      ∀ ref ∈ references, Site.Settled d n ⟨chain, pending?, ref⟩ :=
  List.forall_mem_map

/-- In the round of a loop that is written out there are the references of its body and of its step. -/
theorem settled_roundForm {d : Distances} {n : Nat} {chain : List Place} {step? : Option Expr} {body : Stmt}
    (plain : body.Plain) (settled : SettledAll d n ((Stmt.roundForm step? body).sites chain)) :
    let inner := ⟨.stmt (.roundForm step? body), []⟩ :: chain
    SettledAll d n (body.sites inner) ∧ SettledAll d n (sitesIn inner none (Expr.referencesOpt step?)) := by
  intro inner
  obtain ⟨first, second⟩ := settled_append.mp settled
  refine ⟨first, ?_⟩
  rw [Stmt.after_plain plain] at second
  cases step? with
  | none => exact nofun
  | some step =>
    rw [Expr.referencesOpt_some]
    exact (settled_append.mp second).1

/-- In a loop there are the references of its test, of its step and of its body. -/
theorem loop_settled {d : Distances} {n : Nat} {chain : List Place} {test? step? : Option Expr} {sites : List Site}
    (settled : SettledAll d n
      (sitesIn chain none (Expr.referencesOpt test? ++ Expr.referencesOpt step?) ++ sites)) :
    (SettledAll d n (sitesIn chain none (Expr.referencesOpt test?)) ∧
      SettledAll d n (sitesIn chain none (Expr.referencesOpt step?))) ∧ SettledAll d n sites := by
  obtain ⟨first, second⟩ := settled_append.mp settled
  rw [sitesIn, List.map_append] at first
  exact ⟨settled_append.mp first, second⟩

theorem settled_test {d : Distances} {n : Nat} {chain : List Place} {test? : Option Expr}
    (settled : SettledAll d n (sitesIn chain none (test?.getD (.literal (.bool true))).references)) :
    SettledAll d n (sitesIn chain none (Expr.referencesOpt test?)) := by
  cases test? with
  | none => exact nofun
  | some test => rwa [Expr.referencesOpt_some]

section Statements

variable {K : Bearings} {gaps : Gaps} {chain chain' : List Place} {pending? : Option String}

section Sites

variable (between : gaps.Between chain chain') (own : pending? = none ∨ gaps.headD false = false)
include between own

theorem alike_settled {e e' : Expr} (alike : e.Alike Use.SameButId e')
    (settled : SettledAll K.distances K.nextId (sitesIn chain pending? e.references))
    (settled' : SettledAll K.distances' K.nextId' (sitesIn chain' pending? e'.references)) :
    e.Alike (K.Moved gaps) e' :=
  alike.refine e (fun _ _ _ same one other => moved_of_settled between own same one other)
    (settled_sitesIn.mp settled) (settled_sitesIn.mp settled')

theorem alikeAll_settled {es es' : List Expr} (alike : Expr.AlikeAll Use.SameButId es es')
    (settled : SettledAll K.distances K.nextId (sitesIn chain pending? (Expr.referencesAll es)))
    (settled' : SettledAll K.distances' K.nextId' (sitesIn chain' pending? (Expr.referencesAll es'))) :
    Expr.AlikeAll (K.Moved gaps) es es' :=
  alike.refine es (fun _ _ _ same one other => moved_of_settled between own same one other)
    (settled_sitesIn.mp settled) (settled_sitesIn.mp settled')

theorem alikeOpt_settled {e? e'? : Option Expr} (alike : Expr.AlikeOpt Use.SameButId e? e'?)
    (settled : SettledAll K.distances K.nextId (sitesIn chain pending? (Expr.referencesOpt e?)))
    (settled' : SettledAll K.distances' K.nextId' (sitesIn chain' pending? (Expr.referencesOpt e'?))) :
    Expr.AlikeOpt (K.Moved gaps) e? e'? :=
  alike.refine (fun _ _ _ same one other => moved_of_settled between own same one other)
    (settled_sitesIn.mp settled) (settled_sitesIn.mp settled')

end Sites

theorem Stmt.Lowers.after {s s' : Stmt} (lowers : s.Lowers s') (innermost : s.Plain ∨ gaps.headD false = false)
    (between : gaps.Between chain chain') : gaps.Between (s.after chain) (s'.after chain') := by
  cases lowers with
  | varDecl name _ _ => exact between.declareName (innermost.resolve_left id) name
  | funDecl decl =>
    cases decl with
    | decl name _ _ _ => exact between.declareName (innermost.resolve_left id) name
  | classDecl name _ _ _ => exact between.declareName (innermost.resolve_left id) name
  | _ => exact between

/-- Behind the first clause of a loop there is a further scope. -/
theorem Stmt.Lowers.within {s s' : Stmt} (lowers : s.Lowers s') (starts : s.Initial) (lexical : Lexical s.tokens)
    (between : gaps.Between chain chain') (p p' q : ScopeSite) :
    Gaps.Between (true :: gaps) (s.after (⟨p, []⟩ :: chain)) (⟨q, []⟩ :: s'.after (⟨p', []⟩ :: chain')) := by
  have outside := between.enter p p' []
  cases lowers with
  | expr _ => exact outside.within List.not_mem_nil q
  | varDecl name line alike =>
    have other : name ≠ superName := by
      cases alike <;> exact (lexical name (by simp [Stmt.tokens])).2
    exact (outside.declareName rfl name).within (by simpa using other.symm) q
  | _ => exact starts.elim

theorem between_bound (between : gaps.Between chain chain') (innermost : gaps.headD false = false) {name : String}
    {superclass? superclass'? : Option Use} (same : Option.Rel Use.SameButId superclass? superclass'?)
    (decl decl' : Stmt) : Gaps.Between (false :: gaps.ofMethods superclass?)
      (boundChain decl name superclass? chain) (boundChain decl' name superclass'? chain') := by
  have declared := between.declareName innermost name
  cases same with
  | none => exact .same rfl declared
  | some _ => exact .same rfl (.same rfl declared)

theorem superclass_settled (between : gaps.Between chain chain') {superclass? superclass'? : Option Use}
    (same : Option.Rel Use.SameButId superclass? superclass'?)
    (settled : SettledAll K.distances K.nextId (sitesIn chain none (superclassReferences superclass?)))
    (settled' : SettledAll K.distances' K.nextId' (sitesIn chain' none (superclassReferences superclass'?))) :
    Option.Rel (K.Moved gaps) superclass? superclass'? := by
  cases same with
  | none => exact .none
  | some same =>
    exact .some (moved_of_settled between (Or.inl rfl) same (settled _ List.mem_cons_self)
      (settled' _ List.mem_cons_self))

mutual

/-- Statements with loops written out go deeper where the references of both are settled. -/
theorem Stmt.Lowers.deepens : ∀ (s : Stmt) {s' : Stmt} {gaps : Gaps} {chain chain' : List Place}, s.Lowers s' →
    s.Stratified → Lexical s.tokens → s.Plain ∨ gaps.headD false = false → gaps.Between chain chain' →
    SettledAll K.distances K.nextId (s.sites chain) → SettledAll K.distances' K.nextId' (s'.sites chain') →
    s.Deepens K.Moved gaps s'
  | .expr _, _, _, _, _, .expr alike, _, _, _, between, settled, settled' =>
    .expr (alike_settled between (Or.inl rfl) alike settled settled')
  | .print _ _, _, _, _, _, .print line all, _, _, _, between, settled, settled' =>
    .print line (alikeAll_settled between (Or.inl rfl) all settled settled')
  | .varDecl _ _ _, _, _, _, _, .varDecl name line alike, _, _, innermost, between, settled, settled' => by
    have here := innermost.resolve_left id
    rw [Stmt.sites, between.pendingName] at settled'
    exact .varDecl name line here (alikeOpt_settled between (Or.inr here) alike settled settled')
  | .block body, _, _, _, _, .block lowers, strata, lexical, _, between, settled, settled' => by
    simp only [Stmt.tokens, lexical_cons_mark, List.cons_append, lexical_append] at lexical
    exact .block (lowers.deepens body strata lexical.1 rfl (between.enter _ _ _) settled settled')
  | .ifElse _ consequent none, _, _, _, _, .ifThen test lowers, strata, lexical, _, between, settled, settled' => by
    simp only [Stmt.tokens, lexical_cons_mark, lexical_cons_keyword, List.cons_append, lexical_append] at lexical
    obtain ⟨first, second⟩ := settled_append.mp settled
    obtain ⟨first', second'⟩ := settled_append.mp settled'
    exact .ifThen (alike_settled between (Or.inl rfl) test first first')
      (lowers.deepens consequent strata.2.2 lexical.2 (Or.inl strata.2.1) between second second')
  | .ifElse _ consequent (some alternative), _, _, _, _, .ifElse test one other, strata, lexical, _, between,
      settled, settled' => by
    simp only [Stmt.tokens, lexical_cons_mark, lexical_cons_keyword, List.cons_append, List.append_assoc,
      lexical_append] at lexical
    obtain ⟨first, rest⟩ := settled_append.mp settled
    obtain ⟨second, third⟩ := settled_append.mp rest
    obtain ⟨first', rest'⟩ := settled_append.mp settled'
    obtain ⟨second', third'⟩ := settled_append.mp rest'
    exact .ifElse (alike_settled between (Or.inl rfl) test first first')
      (one.deepens consequent strata.2.1.2.1 lexical.2.1 (Or.inl strata.2.1.1) between second second')
      (other.deepens alternative strata.2.2.2 lexical.2.2 (Or.inl strata.2.2.1) between third third')
  | .whileLoop _ body, _, _, _, _, .whileLoop test lowers, strata, lexical, _, between, settled, settled' => by
    simp only [Stmt.tokens, lexical_cons_mark, lexical_cons_keyword, List.cons_append, lexical_append] at lexical
    obtain ⟨first, second⟩ := settled_append.mp settled
    obtain ⟨first', second'⟩ := settled_append.mp settled'
    exact .whileLoop (alike_settled between (Or.inl rfl) test first first')
      (lowers.deepens body strata.2.2 lexical.2 (Or.inl strata.2.1) between second second')
  | .forLoop none _ _ body, _, _, _, _, .forLoop test step lowers, strata, lexical, _, between, settled, settled' => by
    simp only [Stmt.tokens, lexical_cons_mark, lexical_cons_keyword, List.cons_append, List.append_assoc,
      lexical_append] at lexical
    obtain ⟨⟨first, second⟩, third⟩ := loop_settled settled
    obtain ⟨⟨first', second'⟩, third'⟩ := loop_settled settled'
    exact .forLoop (alikeOpt_settled (between.enter _ _ _) (Or.inl rfl) test first first')
      (alikeOpt_settled (between.enter _ _ _) (Or.inl rfl) step second second')
      (lowers.deepens body strata.2.2.2 lexical.2.2 (Or.inl strata.2.2.1) (between.enter _ _ _) third third')
  | .forLoop (some initial) _ _ body, _, _, _, _, .forFrom initials test step lowers,
      ⟨⟨starts, strata⟩, _, _, plain, inside⟩, lexical, _, between, settled, settled' => by
    simp only [Stmt.tokens, lexical_cons_mark, lexical_cons_keyword, List.cons_append, List.append_assoc,
      lexical_append] at lexical
    obtain ⟨zeroth, rest⟩ := settled_append.mp settled
    obtain ⟨zeroth', rest'⟩ := settled_append.mp settled'
    obtain ⟨⟨first, second⟩, third⟩ := loop_settled rest
    obtain ⟨⟨first', second'⟩, third'⟩ := loop_settled rest'
    have inner (p p' : ScopeSite) := initials.after (Or.inr rfl) (between.enter p p' [])
    exact .forFrom (initials.deepens initial strata lexical.1 (Or.inr rfl) (between.enter _ _ _) zeroth zeroth')
      (alikeOpt_settled (inner _ _) (Or.inl rfl) test first first')
      (alikeOpt_settled (inner _ _) (Or.inl rfl) step second second')
      (lowers.deepens body inside lexical.2.2.2 (Or.inl plain) (inner _ _) third third')
  | .forLoop none _ _ body, _, _, _, _, .lowered test step lowers own, ⟨_, _, plain, strata⟩, lexical, _, between,
      settled, settled' => by
    simp only [Stmt.tokens, lexical_cons_mark, lexical_cons_keyword, List.cons_append, List.append_assoc,
      lexical_append] at lexical
    obtain ⟨⟨first, second⟩, third⟩ := loop_settled settled
    obtain ⟨loop, -⟩ := settled_append.mp settled'
    obtain ⟨first', round⟩ := settled_append.mp loop
    obtain ⟨third', second'⟩ := settled_roundForm (lowers.plain plain) round
    have within (p p' q : ScopeSite) := (between.enter p p' []).within (by simp) q
    exact .lowered (alikeOpt_settled (between.enter _ _ _) (Or.inl rfl) test first (settled_test first'))
      (alikeOpt_settled (within _ _ _) (Or.inl rfl) step second second')
      (lowers.deepens body strata lexical.2.2 (Or.inl plain) (within _ _ _) third third') own
  | .forLoop (some initial) _ _ body, _, _, _, _, .loweredFrom initials test step lowers own,
      ⟨⟨starts, strata⟩, _, _, plain, inside⟩, lexical, _, between, settled, settled' => by
    simp only [Stmt.tokens, lexical_cons_mark, lexical_cons_keyword, List.cons_append, List.append_assoc,
      lexical_append] at lexical
    obtain ⟨zeroth, rest⟩ := settled_append.mp settled
    obtain ⟨⟨first, second⟩, third⟩ := loop_settled rest
    obtain ⟨zeroth', rest'⟩ := settled_append.mp settled'
    obtain ⟨loop, -⟩ := settled_append.mp rest'
    obtain ⟨first', round⟩ := settled_append.mp loop
    obtain ⟨third', second'⟩ := settled_roundForm (lowers.plain plain) round
    have inner (p p' : ScopeSite) := initials.after (Or.inr rfl) (between.enter p p' [])
    have within (p p' q : ScopeSite) := initials.within starts lexical.1 between p p' q
    exact .loweredFrom starts
      (initials.deepens initial strata lexical.1 (Or.inr rfl) (between.enter _ _ _) zeroth zeroth')
      (alikeOpt_settled (inner _ _) (Or.inl rfl) test first (settled_test first'))
      (alikeOpt_settled (within _ _ _) (Or.inl rfl) step second second')
      (lowers.deepens body inside lexical.2.2.2 (Or.inl plain) (within _ _ _) third third') own
  | .breakLoop, _, _, _, _, .breakLoop, _, _, _, _, _, _ => .breakLoop
  | .continueLoop, _, _, _, _, .continueLoop, _, _, _, _, _, _ => .continueLoop
  | .funDecl decl, _, _, _, _, .funDecl lowers, strata, lexical, innermost, between, settled, settled' => by
    simp only [Stmt.tokens, lexical_cons_keyword] at lexical
    have here := innermost.resolve_left id
    refine .funDecl here (lowers.deepens decl strata lexical (between.declareName here decl.name) settled ?_)
    cases lowers with
    | decl name params line _ => exact settled'
  | .returnValue _ _, _, _, _, _, .returnValue line alike, _, _, _, between, settled, settled' =>
    .returnValue line (alikeOpt_settled between (Or.inl rfl) alike settled settled')
  | .classDecl _ _ methods _, _, _, _, _, .classDecl name line superclass lowers, strata, lexical, innermost, between,
      settled, settled' => by
    simp only [Stmt.tokens, lexical_cons_mark, lexical_cons_keyword, lexical_cons_identifier, List.cons_append,
      List.append_assoc, lexical_append] at lexical
    have here := innermost.resolve_left id
    obtain ⟨first, second⟩ := settled_append.mp settled
    obtain ⟨first', second'⟩ := settled_append.mp settled'
    exact .classDecl name line here (superclass_settled between superclass first first')
      (lowers.deepens methods strata lexical.2.2.1 (between_bound between here superclass _ _) second second')

theorem FunctionDecl.Lowers.deepens : ∀ (f : FunctionDecl) {f' : FunctionDecl} {gaps : Gaps}
    {chain chain' : List Place}, f.Lowers f' → f.Stratified → Lexical f.tokens → gaps.Between chain chain' →
    SettledAll K.distances K.nextId (f.sites chain) → SettledAll K.distances' K.nextId' (f'.sites chain') →
    f.Deepens K.Moved gaps f'
  | { name := _, params := _, body, line := _ }, _, _, _, _, .decl name params line lowers, strata, lexical, between,
      settled, settled' => by
    simp only [FunctionDecl.tokens, lexical_cons_mark, lexical_cons_identifier, List.cons_append, List.append_assoc,
      lexical_append] at lexical
    exact .decl name params line
      (lowers.deepens body strata lexical.2.2.1 rfl (between.enter _ _ _) settled settled')

theorem Stmt.LowersAll.deepens : ∀ (ss : List Stmt) {ss' : List Stmt} {gaps : Gaps} {chain chain' : List Place},
    Stmt.LowersAll ss ss' → Stmt.StratifiedAll ss → Lexical (Stmt.tokensAll ss) → gaps.headD false = false →
    gaps.Between chain chain' → SettledAll K.distances K.nextId (Stmt.sitesAll ss chain) →
    SettledAll K.distances' K.nextId' (Stmt.sitesAll ss' chain') → Stmt.DeepensAll K.Moved gaps ss ss'
  | [], _, _, _, _, .nil, _, _, _, _, _, _ => .nil
  | s :: ss, _, _, _, _, .cons one others, strata, lexical, innermost, between, settled, settled' => by
    simp only [Stmt.tokensAll, lexical_append] at lexical
    obtain ⟨first, second⟩ := settled_append.mp settled
    obtain ⟨first', second'⟩ := settled_append.mp settled'
    exact .cons (one.deepens s strata.1 lexical.1 (Or.inr innermost) between first first')
      (others.deepens ss strata.2 lexical.2 innermost (one.after (Or.inr innermost) between) second second')

theorem FunctionDecl.LowersAll.deepens : ∀ (fs : List FunctionDecl) {fs' : List FunctionDecl} {gaps : Gaps}
    {chain chain' : List Place}, FunctionDecl.LowersAll fs fs' → FunctionDecl.StratifiedAll fs →
    Lexical (FunctionDecl.tokensAll fs) → gaps.Between chain chain' →
    SettledAll K.distances K.nextId (FunctionDecl.sitesAll fs chain) →
    SettledAll K.distances' K.nextId' (FunctionDecl.sitesAll fs' chain') → FunctionDecl.DeepensAll K.Moved gaps fs fs'
  | [], _, _, _, _, .nil, _, _, _, _, _ => .nil
  | f :: fs, _, _, _, _, .cons one others, strata, lexical, between, settled, settled' => by
    simp only [FunctionDecl.tokensAll, lexical_append] at lexical
    obtain ⟨first, second⟩ := settled_append.mp settled
    obtain ⟨first', second'⟩ := settled_append.mp settled'
    exact .cons (one.deepens f strata.1 lexical.1 between first first')
      (others.deepens fs strata.2 lexical.2 between second second')

end

end Statements

/-! ### Statements as they are -/

section Self

variable {P : Nat → Prop} {R : Use → Use → Prop}

mutual

/-- An expression is like itself if its references are. -/
theorem Expr.alike_self : ∀ e : Expr, (∀ use : Use, P use.id → R use use) →
    (∀ ref ∈ e.references, P ref.id) → e.Alike R e
  | .literal value, _, _ => .literal value
  | .group inner, same, known => .group (alike_self inner same known)
  | .unary op operand line, same, known => .unary op line (alike_self operand same known)
  | .binary op left right line, same, known => by
    simp only [Expr.references, List.forall_mem_append] at known
    exact .binary op line (alike_self left same known.1) (alike_self right same known.2)
  | .conditional test consequent alternative, same, known => by
    simp only [Expr.references, List.forall_mem_append] at known
    exact .conditional (alike_self test same known.1) (alike_self consequent same known.2.1)
      (alike_self alternative same known.2.2)
  | .var use, same, known => .var (same use (known _ List.mem_cons_self))
  | .assign target value, same, known => by
    simp only [Expr.references, List.forall_mem_cons] at known
    exact .assign (same target known.1) (alike_self value same known.2)
  | .thisRef id line, same, known => .thisRef line (same ⟨id, thisName, line⟩ (known _ List.mem_cons_self))
  | .superRef id method line, same, known =>
    .superRef method line (same ⟨id, superName, line⟩ (known _ List.mem_cons_self))
  | .call callee arguments line, same, known => by
    simp only [Expr.references, List.forall_mem_append] at known
    exact .call line (alike_self callee same known.1) (alikeAll_self arguments same known.2)
  | .field object name line, same, known => .field name line (alike_self object same known)
  | .setField object name value line, same, known => by
    simp only [Expr.references, List.forall_mem_append] at known
    exact .setField name line (alike_self object same known.1) (alike_self value same known.2)
  | .array elements, same, known => .array (alikeAll_self elements same known)
  | .element sequence index line, same, known => by
    simp only [Expr.references, List.forall_mem_append] at known
    exact .element line (alike_self sequence same known.1) (alike_self index same known.2)
  | .setElement sequence index value line, same, known => by
    simp only [Expr.references, List.forall_mem_append] at known
    exact .setElement line (alike_self sequence same known.1) (alike_self index same known.2.1)
      (alike_self value same known.2.2)

theorem Expr.alikeAll_self : ∀ es : List Expr, (∀ use : Use, P use.id → R use use) →
    (∀ ref ∈ Expr.referencesAll es, P ref.id) → Expr.AlikeAll R es es
  | [], _, _ => .nil
  | e :: es, same, known => by
    simp only [Expr.referencesAll, List.forall_mem_append] at known
    exact .cons (alike_self e same known.1) (alikeAll_self es same known.2)

end

theorem Expr.alikeOpt_self (e? : Option Expr) (same : ∀ use : Use, P use.id → R use use)
    (known : ∀ ref ∈ Expr.referencesOpt e?, P ref.id) : Expr.AlikeOpt R e? e? := by
  cases e? with
  | none => exact .none
  | some e =>
    rw [Expr.referencesOpt_some] at known
    exact .some (alike_self e same known)

end Self

/-- Each of some references has a certain id. -/
def KnownAll (P : Nat → Prop) (sites : List Site) : Prop :=
  ∀ site ∈ sites, P site.reference.id

section Self

variable {P : Nat → Prop} {R : Gaps → Use → Use → Prop}

theorem knownAll_append {as bs : List Site} : KnownAll P (as ++ bs) ↔ KnownAll P as ∧ KnownAll P bs :=
  List.forall_mem_append

theorem knownAll_sitesIn {chain : List Place} {pending? : Option String} {references : List Reference} :
    KnownAll P (sitesIn chain pending? references) ↔ ∀ ref ∈ references, P ref.id :=
  List.forall_mem_map

mutual

/-- A statement is like itself where there are no further scopes. -/
theorem Stmt.deepens_self : ∀ (s : Stmt) {gaps : Gaps} {chain : List Place},
    (∀ gaps : Gaps, true ∉ gaps → ∀ use : Use, P use.id → R gaps use use) → true ∉ gaps →
    KnownAll P (s.sites chain) → s.Deepens R gaps s
  | .expr value, gaps, _, same, flat, known =>
    .expr (Expr.alike_self value (same gaps flat) (knownAll_sitesIn.mp known))
  | .print items line, gaps, _, same, flat, known =>
    .print line (Expr.alikeAll_self items (same gaps flat) (knownAll_sitesIn.mp known))
  | .varDecl name initial? line, gaps, _, same, flat, known =>
    .varDecl name line (Gaps.headD_of_not_mem flat)
      (Expr.alikeOpt_self initial? (same gaps flat) (knownAll_sitesIn.mp known))
  | .block body, _, _, same, flat, known => .block (Stmt.deepensAll_self body same (by simpa using flat) known)
  | .ifElse test consequent none, gaps, _, same, flat, known => by
    obtain ⟨first, second⟩ := knownAll_append.mp known
    exact .ifThen (Expr.alike_self test (same gaps flat) (knownAll_sitesIn.mp first))
      (Stmt.deepens_self consequent same flat second)
  | .ifElse test consequent (some alternative), gaps, _, same, flat, known => by
    obtain ⟨first, rest⟩ := knownAll_append.mp known
    obtain ⟨second, third⟩ := knownAll_append.mp rest
    exact .ifElse (Expr.alike_self test (same gaps flat) (knownAll_sitesIn.mp first))
      (Stmt.deepens_self consequent same flat second) (Stmt.deepens_self alternative same flat third)
  | .whileLoop test body, gaps, _, same, flat, known => by
    obtain ⟨first, second⟩ := knownAll_append.mp known
    exact .whileLoop (Expr.alike_self test (same gaps flat) (knownAll_sitesIn.mp first))
      (Stmt.deepens_self body same flat second)
  | .forLoop none test? step? body, gaps, _, same, flat, known => by
    have inner : true ∉ false :: gaps := by simpa using flat
    obtain ⟨clauses, third⟩ := knownAll_append.mp known
    obtain ⟨first, second⟩ := List.forall_mem_append.mp (knownAll_sitesIn.mp clauses)
    exact .forLoop (Expr.alikeOpt_self test? (same _ inner) first) (Expr.alikeOpt_self step? (same _ inner) second)
      (Stmt.deepens_self body same inner third)
  | .forLoop (some initial) test? step? body, gaps, _, same, flat, known => by
    have inner : true ∉ false :: gaps := by simpa using flat
    obtain ⟨zeroth, rest⟩ := knownAll_append.mp known
    obtain ⟨clauses, third⟩ := knownAll_append.mp rest
    obtain ⟨first, second⟩ := List.forall_mem_append.mp (knownAll_sitesIn.mp clauses)
    exact .forFrom (Stmt.deepens_self initial same inner zeroth) (Expr.alikeOpt_self test? (same _ inner) first)
      (Expr.alikeOpt_self step? (same _ inner) second) (Stmt.deepens_self body same inner third)
  | .breakLoop, _, _, _, _, _ => .breakLoop
  | .continueLoop, _, _, _, _, _ => .continueLoop
  | .funDecl decl, _, _, same, flat, known =>
    .funDecl (Gaps.headD_of_not_mem flat) (FunctionDecl.deepens_self decl same flat known)
  | .returnValue value? line, gaps, _, same, flat, known =>
    .returnValue line (Expr.alikeOpt_self value? (same gaps flat) (knownAll_sitesIn.mp known))
  | .classDecl name superclass? methods line, gaps, _, same, flat, known => by
    obtain ⟨first, second⟩ := knownAll_append.mp known
    refine .classDecl name line (Gaps.headD_of_not_mem flat) ?_ (FunctionDecl.deepensAll_self methods same ?_ second)
    · cases superclass? with
      | none => exact .none
      | some use => exact .some (same gaps flat use (first _ List.mem_cons_self))
    · cases superclass? <;> simpa [Gaps.ofMethods] using flat

theorem FunctionDecl.deepens_self : ∀ (f : FunctionDecl) {gaps : Gaps} {chain : List Place},
    (∀ gaps : Gaps, true ∉ gaps → ∀ use : Use, P use.id → R gaps use use) → true ∉ gaps →
    KnownAll P (f.sites chain) → f.Deepens R gaps f
  | { name, params, body, line }, _, _, same, flat, known =>
    .decl name params line (Stmt.deepensAll_self body same (by simpa using flat) known)

theorem Stmt.deepensAll_self : ∀ (ss : List Stmt) {gaps : Gaps} {chain : List Place},
    (∀ gaps : Gaps, true ∉ gaps → ∀ use : Use, P use.id → R gaps use use) → true ∉ gaps →
    KnownAll P (Stmt.sitesAll ss chain) → Stmt.DeepensAll R gaps ss ss
  | [], _, _, _, _, _ => .nil
  | s :: ss, _, _, same, flat, known => by
    obtain ⟨first, second⟩ := knownAll_append.mp known
    exact .cons (Stmt.deepens_self s same flat first) (Stmt.deepensAll_self ss same flat second)

theorem FunctionDecl.deepensAll_self : ∀ (fs : List FunctionDecl) {gaps : Gaps} {chain : List Place},
    (∀ gaps : Gaps, true ∉ gaps → ∀ use : Use, P use.id → R gaps use use) → true ∉ gaps →
    KnownAll P (FunctionDecl.sitesAll fs chain) → FunctionDecl.DeepensAll R gaps fs fs
  | [], _, _, _, _, _ => .nil
  | f :: fs, _, _, same, flat, known => by
    obtain ⟨first, second⟩ := knownAll_append.mp known
    exact .cons (FunctionDecl.deepens_self f same flat first) (FunctionDecl.deepensAll_self fs same flat second)

end

/-- With the same distances in both programs a reference moves to itself where there are no further scopes. -/
theorem Bearings.moved_self {distances : Distances} {nextId : Nat} {gaps : Gaps} (flat : true ∉ gaps) {use : Use}
    (below : use.id < nextId) : Bearings.Moved ⟨distances, distances, nextId, nextId⟩ gaps use use := by
  refine ⟨⟨rfl, rfl⟩, below, below, ?_, fun _ n _ => Gaps.getD_of_not_mem flat⟩
  have same : gaps.out = id := funext fun n => Gaps.out_of_not_mem flat
  rw [same, Option.map_id]
  rfl

end Self

end Lox
