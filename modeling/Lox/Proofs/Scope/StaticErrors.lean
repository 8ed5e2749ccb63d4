import Lox.Proofs.Scope.Occurrences
import Lox.Proofs.Scope.Relabel
import Lox.Proofs.Scope.Walk

/-!
The walk over a program reports what is out of place in it, and nothing else. On its way the walk keeps no more
of what is around a place than the names of the innermost scope and the kinds of the innermost function and class;
these are what they have to be there, however functions, classes and scopes are nested.
-/

namespace Lox

open Resolution

/-! ### What the walk knows of the surroundings -/

/-- The kind of the innermost function. -/
def FunctionKind.within : List Enclosure → FunctionKind
  | [] => .none
  | .function :: _ => .function
  | .method name :: _ => .ofMethod name
  | _ :: outer => within outer

/-- The kind of the innermost class. -/
def ClassKind.within : List Enclosure → ClassKind
  | [] => .none
  | .classBody Option.none :: _ => .base
  | .classBody (some _) :: _ => .derived
  | _ :: outer => within outer

/-- The innermost scope of a walk has the names declared in some surroundings, and the variable whose initializer
is being looked at, which is not known yet. -/
structure Resolution.Sees (r : Resolution) (around : Surroundings) (initializing? : Option String) : Prop where
  inside : r.scopes = [] ↔ around.enclosures = []
  names : ∀ scope ∈ r.scopes.head?, ∀ name, scope.get? name =
    if initializing? = some name then some false else if name ∈ around.earlier then some true else none

/-- A walk is where some surroundings are around it. -/
structure Resolution.StandsAt (r : Resolution) (around : Surroundings) (initializing? : Option String) : Prop
    extends r.Sees around initializing? where
  functionKind : r.functionKind = .within around.enclosures
  classKind : r.classKind = .within around.enclosures

/-- Between two walks just the errors among some occurrences are reported. -/
def Resolution.Reports (r r' : Resolution) (occurrences : List Occurrence) : Prop :=
  r'.diagnostics = r.diagnostics ++ occurrences.filterMap Occurrence.diagnostic?

variable {r r₁ r' : Resolution} {around : Surroundings} {initializing? : Option String} {name : String}

theorem within_initializer (enclosures : List Enclosure) (earlier : List String) :
    FunctionKind.within enclosures = .initializer ↔
      Surroundings.innermostFunction? ⟨enclosures, earlier⟩ = some (.method initName) := by
  induction enclosures with
  | nil => simp [FunctionKind.within, Surroundings.innermostFunction?]
  | cons enclosure outer ih =>
    cases enclosure with
    | function => simp [FunctionKind.within, Surroundings.innermostFunction?]
    | method name =>
      by_cases same : name = initName <;>
        simp [FunctionKind.within, FunctionKind.ofMethod, Surroundings.innermostFunction?, same]
    | _ => exact ih

theorem within_noClass (enclosures : List Enclosure) (earlier : List String) :
    ClassKind.within enclosures = .none ↔ Surroundings.innermostClass? ⟨enclosures, earlier⟩ = none := by
  induction enclosures with
  | nil => simp [ClassKind.within, Surroundings.innermostClass?]
  | cons enclosure outer ih =>
    cases enclosure with
    | classBody superclass? => cases superclass? <;> simp [ClassKind.within, Surroundings.innermostClass?]
    | _ => exact ih

theorem within_derived (enclosures : List Enclosure) (earlier : List String) :
    ClassKind.within enclosures ≠ .derived ↔ Surroundings.innermostClass? ⟨enclosures, earlier⟩ = none ∨
      Surroundings.innermostClass? ⟨enclosures, earlier⟩ = some (.classBody none) := by
  induction enclosures with
  | nil => simp [ClassKind.within, Surroundings.innermostClass?]
  | cons enclosure outer ih =>
    cases enclosure with
    | classBody superclass? => cases superclass? <;> simp [ClassKind.within, Surroundings.innermostClass?]
    | _ => exact ih

namespace Resolution

/-! ### Reports -/

theorem Reports.refl (r : Resolution) : r.Reports r [] :=
  (List.append_nil _).symm

theorem Reports.append {os os' : List Occurrence} (first : r.Reports r₁ os) (second : r₁.Reports r' os') :
    r.Reports r' (os ++ os') := by
  unfold Reports at *
  rw [second, first, List.filterMap_append, List.append_assoc]

theorem Reports.congr {s s' : Resolution} {os : List Occurrence} (reports : r.Reports r' os)
    (same : s.diagnostics = r.diagnostics) (same' : s'.diagnostics = r'.diagnostics) : s.Reports s' os := by
  unfold Reports at *
  rw [same', same, reports]

/-- One occurrence is reported if it is an error. -/
theorem reports_one {o : Occurrence} {error : StaticError} {wrong : Prop} [Decidable wrong]
    (same : o.error? = if wrong then some error else none)
    (yes : wrong → r'.diagnostics = (r.report o.line error).diagnostics)
    (no : ¬ wrong → r'.diagnostics = r.diagnostics) : r.Reports r' [o] := by
  unfold Reports
  by_cases holds : wrong
  · have is : o.diagnostic? = some (.onLine o.line error) := by
      rw [Occurrence.diagnostic?, same, if_pos holds]
      rfl
    rw [yes holds, List.filterMap_cons_some is]
    rfl
  · have is : o.diagnostic? = none := by
      rw [Occurrence.diagnostic?, same, if_neg holds]
      rfl
    rw [no holds, List.filterMap_cons_none is]
    exact (List.append_nil _).symm

theorem refer_diagnostics (r : Resolution) (id : Nat) (name : String) :
    (r.refer id name).diagnostics = r.diagnostics := by
  unfold refer
  split <;> rfl

theorem reports_of_same (same : r'.diagnostics = r.diagnostics) : r.Reports r' [] :=
  same.trans (List.append_nil _).symm

/-! ### Scopes -/

theorem Sees.of_same (sees : r.Sees around initializing?) (scopes : r'.scopes = r.scopes) :
    r'.Sees around initializing? := by
  refine ⟨?_, ?_⟩
  · rw [scopes]
    exact sees.inside
  · rw [scopes]
    exact sees.names

/-- A name that is set is the last one of the innermost scope that has been declared. -/
theorem setName_sees {known : Bool} {other? : Option String} {earlier : List String}
    (sees : r.Sees around initializing?)
    (names : ∀ other, other ≠ name → (initializing? = some other ↔ other? = some other) ∧
      (other ∈ around.earlier ↔ other ∈ earlier))
    (here : (if other? = some name then some false else if name ∈ earlier then some true else none) = some known) :
    (r.setName name known).Sees ⟨around.enclosures, earlier⟩ other? := by
  refine ⟨?_, ?_⟩
  · rw [← sees.inside, ← List.length_eq_zero_iff, ← List.length_eq_zero_iff, (restored_setName r name known).depth]
  · unfold setName
    cases scopes : r.scopes with
    | nil => simp [scopes]
    | cons scope outer =>
      intro _ is other
      obtain rfl := Option.some.inj is
      rw [Table.get?_put]
      by_cases same : other = name
      · rw [if_pos same, same, here]
      · rw [if_neg same, sees.names scope (by simp [scopes])]
        simp only [names other same]

theorem declare_sees (sees : r.Sees around none) (name : String) (line : Nat) :
    (r.declare name line).Sees around (some name) := by
  have set : (r.setName name false).Sees around (some name) := by
    refine setName_sees sees (fun other apart => ⟨?_, Iff.rfl⟩) (if_pos rfl)
    simp [apart.symm]
  unfold declare
  dsimp only
  split
  · exact set.of_same rfl
  · exact set

theorem define_sees (sees : r.Sees around (some name)) : (r.define name).Sees (around.after [name]) none := by
  refine setName_sees sees (fun other apart => ⟨?_, ?_⟩) (by simp)
  · simp [apart.symm]
  · simp [apart]

theorem declares_iff (sees : r.Sees around none) (name : String) :
    r.declares name = true ↔ around.enclosures ≠ [] ∧ name ∈ around.earlier := by
  unfold declares
  cases scopes : r.scopes with
  | nil => simp [sees.inside.mp scopes]
  | cons scope outer =>
    have inside : around.enclosures ≠ [] := fun outside => by simp [sees.inside.mpr outside] at scopes
    have has : scope.has name = decide (name ∈ around.earlier) := by
      rw [Table.has, sees.names scope (by simp [scopes])]
      by_cases member : name ∈ around.earlier <;> simp [member]
    simp [has, inside]

theorem declare_reports (sees : r.Sees around none) (name : String) (line : Nat) :
    r.Reports (r.declare name line) (occurrencesIn around none [⟨.declares name, line⟩]) := by
  have kept : (r.setName name false).diagnostics = r.diagnostics := by
    unfold setName
    split <;> rfl
  refine reports_one rfl (fun wrong => ?_) fun right => ?_
  · rw [declare, if_pos ((declares_iff sees name).mpr wrong)]
    simp only [report, kept]
  · rw [declare, if_neg fun declares => right ((declares_iff sees name).mp declares)]
    exact kept

theorem reads_iff (sees : r.Sees around initializing?) (name : String) :
    r.scopes.head?.bind (·.get? name) = some false ↔ around.enclosures ≠ [] ∧ initializing? = some name := by
  cases scopes : r.scopes with
  | nil => simp [sees.inside.mp scopes]
  | cons scope outer =>
    have inside : around.enclosures ≠ [] := fun outside => by simp [sees.inside.mpr outside] at scopes
    have found := sees.names scope (by simp [scopes]) name
    rw [List.head?_cons, Option.bind_some, found]
    by_cases same : initializing? = some name
    · simp [same, inside]
    · by_cases member : name ∈ around.earlier <;> simp [same, member]

theorem read_reports (sees : r.Sees around initializing?) (use : Use) :
    r.Reports (r.read use) (occurrencesIn around initializing? [⟨.reads use.name, use.line⟩]) := by
  refine reports_one rfl (fun wrong => ?_) fun right => ?_
  · rw [read, if_pos ((reads_iff sees use.name).mpr wrong), refer_diagnostics]
  · rw [read, if_neg fun reads => right ((reads_iff sees use.name).mp reads), refer_diagnostics]

/-! ### Places -/

/-- Behind a phrase the kinds of the innermost function and class are those in front of it. -/
theorem StandsAt.restored {around' : Surroundings} {other? : Option String} (stands : r.StandsAt around initializing?)
    (restored : r.Restored r') (sees : r'.Sees around' other?) (same : around'.enclosures = around.enclosures) :
    r'.StandsAt around' other? := by
  refine ⟨sees, ?_, ?_⟩
  · rw [same]
    exact restored.functionKind.trans stands.functionKind
  · rw [same]
    exact restored.classKind.trans stands.classKind

theorem StandsAt.expr (stands : r.StandsAt around initializing?) (e : Expr) :
    (e.resolve r).StandsAt around initializing? :=
  stands.restored (e.restored r) (stands.toSees.of_same (e.walked r).scopes) rfl

theorem StandsAt.exprs (stands : r.StandsAt around initializing?) (es : List Expr) :
    (Expr.resolveAll es r).StandsAt around initializing? :=
  stands.restored (Expr.restoredAll es r) (stands.toSees.of_same (Expr.walkedAll es r).scopes) rfl

theorem stands_open {enclosure : Enclosure} (function : r.functionKind = .within (enclosure :: around.enclosures))
    (isClass : r.classKind = .within (enclosure :: around.enclosures)) :
    r.openScope.StandsAt (around.enter enclosure) none := by
  refine ⟨⟨?_, ?_⟩, function, isClass⟩
  · simp [openScope, Surroundings.enter]
  · intro scope is name
    obtain rfl := Option.some.inj is
    simp [Surroundings.enter]

theorem StandsAt.declared (stands : r.StandsAt around none) (name : String) (line : Nat) :
    ((r.declare name line).define name).StandsAt (around.after [name]) none :=
  stands.restored ((restored_declare r name line).trans (restored_define _ name))
    (define_sees (declare_sees stands.toSees name line)) rfl

end Resolution

theorem occurrencesIn_append (around : Surroundings) (initializing? : Option String) (as bs : List Mention) :
    occurrencesIn around initializing? (as ++ bs) =
      occurrencesIn around initializing? as ++ occurrencesIn around initializing? bs :=
  List.map_append

/-! ### Expressions -/

mutual

theorem Expr.reports : ∀ (e : Expr) {r : Resolution}, r.StandsAt around initializing? →
    r.Reports (e.resolve r) (occurrencesIn around initializing? e.mentions)
  | .literal _, r, _ => .refl r
  | .group inner, _, stands => inner.reports stands
  | .unary _ operand _, _, stands => operand.reports stands
  | .binary _ left right _, _, stands => by
    rw [Expr.mentions, occurrencesIn_append]
    exact (left.reports stands).append (right.reports (stands.expr left))
  | .conditional test consequent alternative, _, stands => by
    rw [Expr.mentions, occurrencesIn_append, occurrencesIn_append]
    have behind := stands.expr test
    exact (test.reports stands).append
      ((consequent.reports behind).append (alternative.reports (behind.expr consequent)))
  | .var use, _, stands => read_reports stands.toSees use
  | .assign target value, _, stands => (value.reports stands).congr rfl (refer_diagnostics _ _ _)
  | .thisRef id line, r, stands => by
    have outside : r.classKind = .none ↔ around.innermostClass? = none := by
      rw [stands.classKind]
      exact within_noClass _ around.earlier
    refine reports_one rfl (fun wrong => ?_) fun right => ?_
    · rw [Expr.resolve, if_pos (outside.mpr wrong)]
    · rw [Expr.resolve, if_neg fun kind => right (outside.mp kind), refer_diagnostics]
  | .superRef id method line, r, stands => by
    have outside : r.classKind ≠ .derived ↔
        around.innermostClass? = none ∨ around.innermostClass? = some (.classBody none) := by
      rw [stands.classKind]
      exact within_derived _ around.earlier
    refine reports_one rfl (fun wrong => ?_) fun right => ?_
    · rw [Expr.resolve, if_neg (outside.mpr wrong)]
    · rw [Expr.resolve, if_pos (Decidable.not_not.mp fun kind => right (outside.mp kind)), refer_diagnostics]
  | .call callee arguments _, _, stands => by
    rw [Expr.mentions, occurrencesIn_append]
    exact (callee.reports stands).append (Expr.reportsAll arguments (stands.expr callee))
  | .field object _ _, _, stands => object.reports stands
  | .setField object _ value _, _, stands => by
    rw [Expr.mentions, occurrencesIn_append]
    exact (value.reports stands).append (object.reports (stands.expr value))
  | .array elements, _, stands => Expr.reportsAll elements stands
  | .element sequence index _, _, stands => by
    rw [Expr.mentions, occurrencesIn_append]
    exact (sequence.reports stands).append (index.reports (stands.expr sequence))
  | .setElement sequence index value _, _, stands => by
    rw [Expr.mentions, occurrencesIn_append, occurrencesIn_append]
    have behind := stands.expr value
    exact (value.reports stands).append ((sequence.reports behind).append (index.reports (behind.expr sequence)))

theorem Expr.reportsAll : ∀ (es : List Expr) {r : Resolution}, r.StandsAt around initializing? →
    r.Reports (Expr.resolveAll es r) (occurrencesIn around initializing? (Expr.mentionsAll es))
  | [], r, _ => .refl r
  | e :: es, _, stands => by
    rw [Expr.mentionsAll, occurrencesIn_append]
    exact (e.reports stands).append (Expr.reportsAll es (stands.expr e))

end

/-! ### Statements -/

/-- A walk reports the errors among some occurrences and then stands behind them. -/
structure Resolution.Passes (r r' : Resolution) (around : Surroundings) (occurrences : List Occurrence) : Prop where
  reports : r.Reports r' occurrences
  stands : r'.StandsAt around none

namespace Resolution

variable {os os' : List Occurrence}

theorem Passes.refl (stands : r.StandsAt around none) : r.Passes r around [] :=
  ⟨.refl r, stands⟩

theorem Passes.append {between : Surroundings} (first : r.Passes r₁ between os) (second : r₁.Passes r' around os') :
    r.Passes r' around (os ++ os') :=
  ⟨first.reports.append second.reports, second.stands⟩

theorem StandsAt.passes_expr (stands : r.StandsAt around none) (e : Expr) :
    r.Passes (e.resolve r) around (occurrencesIn around none e.mentions) :=
  ⟨e.reports stands, stands.expr e⟩

theorem StandsAt.passes_exprs (stands : r.StandsAt around none) (es : List Expr) :
    r.Passes (Expr.resolveAll es r) around (occurrencesIn around none (Expr.mentionsAll es)) :=
  ⟨Expr.reportsAll es stands, stands.exprs es⟩

/-- The test and the step of a loop. -/
theorem StandsAt.passes_conditions (stands : r.StandsAt around none) (test? step? : Option Expr) :
    r.Passes (Expr.resolveOpt step? (Expr.resolveOpt test? r)) around
      (occurrencesIn around none (Expr.mentionsOpt test? ++ Expr.mentionsOpt step?)) := by
  rw [occurrencesIn_append]
  have first := stands.passes_exprs test?.toList
  exact first.append (first.stands.passes_exprs step?.toList)

theorem StandsAt.passes_declared (stands : r.StandsAt around none) (name : String) (line : Nat) :
    r.Passes ((r.declare name line).define name) (around.after [name])
      (occurrencesIn around none [⟨.declares name, line⟩]) :=
  ⟨(declare_reports stands.toSees name line).congr rfl (define_diagnostics _ name), stands.declared name line⟩

/-- What is in a scope of its own declares nothing behind it. -/
theorem StandsAt.passes_scope (enclosure : Enclosure) (stands : r.StandsAt around none)
    (function : FunctionKind.within (enclosure :: around.enclosures) = .within around.enclosures)
    (isClass : ClassKind.within (enclosure :: around.enclosures) = .within around.enclosures)
    (restored : r.openScope.Restored r')
    (reports : r.openScope.StandsAt (around.enter enclosure) none → r.openScope.Reports r' os) :
    r.Passes r'.closeScope around os := by
  have opened : r.openScope.StandsAt (around.enter enclosure) none :=
    stands_open (stands.functionKind.trans function.symm) (stands.classKind.trans isClass.symm)
  refine ⟨(reports opened).congr rfl rfl, stands.restored restored.close ?_ rfl⟩
  exact stands.toSees.of_same restored.outer

theorem passes_params (params : List String) (line : Nat) (stands : r.StandsAt around none) :
    r.Passes (declareParams params line r) (around.after params) (paramOccurrences line params around) := by
  induction params generalizing r around with
  | nil => exact .refl stands
  | cons name params ih =>
    have first := stands.passes_declared name line
    have all := first.append (ih first.stands)
    refine ⟨all.reports, stands.restored (declareParams_restored _ line r) ?_ rfl⟩
    -- The parameters are listed the other way round.
    refine ⟨all.stands.inside, fun scope is other => ?_⟩
    rw [all.stands.names scope is other]
    simp [Surroundings.after, or_left_comm]

theorem StandsAt.passes_return (stands : r.StandsAt around none) (value? : Option Expr) (line : Nat) :
    r.Passes (resolveReturn value? line r) around (occurrencesIn around none (returnMentions line value?)) := by
  cases value? with
  | none => exact .refl stands
  | some value =>
    have inInitializer : r.functionKind = .initializer ↔ around.innermostFunction? = some (.method initName) := by
      rw [stands.functionKind]
      exact within_initializer _ around.earlier
    let said := if r.functionKind = .initializer then r.report line .returnFromInitializer else r
    have first : r.Reports said (occurrencesIn around none [⟨.returnValue, line⟩]) := by
      refine reports_one rfl (fun wrong => ?_) fun right => ?_
      · simp only [said, if_pos (inInitializer.mpr wrong)]
      · simp only [said, if_neg fun kind => right (inInitializer.mp kind)]
    have restored : r.Restored said := by
      unfold said
      split
      · exact restored_report _ _ _
      · exact .refl r
    have same : said.scopes = r.scopes := by
      unfold said
      split <;> rfl
    have behind := stands.restored restored (stands.toSees.of_same same) rfl
    exact ⟨first.append (value.reports behind), behind.expr value⟩

/-! ### Classes -/

/-- The walk as far as the methods of a class. -/
theorem StandsAt.enterClass (stands : r.StandsAt around none) (name : String) (superclass? : Option Use) (line : Nat) :
    r.Reports (enterClass name superclass? line r) (occurrencesIn around none [⟨.declares name, line⟩] ++
      occurrencesIn (around.after [name]) none (superclassMentions name superclass?)) ∧
    (enterClass name superclass? line r).classKind = .within (.classBody superclass? :: around.enclosures) := by
  have sees : ({ r with classKind := .base } : Resolution).Sees around none := stands.toSees.of_same rfl
  have first : r.Reports (({ r with classKind := .base }.declare name line).define name)
      (occurrencesIn around none [⟨.declares name, line⟩]) :=
    (declare_reports sees name line).congr rfl (define_diagnostics _ name)
  have named := define_sees (declare_sees sees name line)
  cases superclass? with
  | none =>
    refine ⟨first.append (reports_of_same (define_diagnostics _ thisName)), ?_⟩
    exact (restored_define _ thisName).classKind.trans
      ((restored_define _ name).classKind.trans (restored_declare _ name line).classKind)
  | some use =>
    let said := if use.name = name then
        (({ r with classKind := .base }.declare name line).define name).report use.line .inheritFromSelf
      else ({ r with classKind := .base }.declare name line).define name
    have second : (({ r with classKind := .base }.declare name line).define name).Reports said
        (occurrencesIn (around.after [name]) none [⟨.inherits name use.name, use.line⟩]) := by
      refine reports_one rfl (fun wrong => ?_) fun right => ?_
      · simp only [said, if_pos wrong]
      · simp only [said, if_neg right]
    have same : ({ said with classKind := .derived } : Resolution).scopes =
        (({ r with classKind := .base }.declare name line).define name).scopes := by
      unfold said
      split <;> rfl
    have third := read_reports (named.of_same same) use
    refine ⟨(first.append (second.append third)).congr rfl ?_, ?_⟩
    · exact (define_diagnostics _ thisName).trans (define_diagnostics _ superName)
    · exact (restored_define _ thisName).classKind.trans
        ((restored_define _ superName).classKind.trans (restored_read _ use).classKind)

/-- Behind a class the scopes are those behind its name. -/
theorem leaveClass_scopes (name : String) (superclass? : Option Use) (line : Nat) (outer : ClassKind)
    (inside : (Lox.enterClass name superclass? line r).Restored r') :
    (leaveClass superclass? outer r').scopes =
      (({ r with classKind := .base }.declare name line).define name).scopes := by
  cases superclass? with
  | none => exact ((restored_define _ thisName).trans inside).outer
  | some use =>
    have above := ((restored_define _ thisName).trans inside).close
    have read := ((restored_define _ superName).trans above).outer
    refine Eq.trans read ((walked_read use).scopes.trans ?_)
    dsimp only
    split <;> rfl

end Resolution

/-! ### The walk over statements -/

theorem FunctionDecl.resolve_scopes (f : FunctionDecl) (kind : FunctionKind) (r : Resolution) :
    (f.resolve kind r).scopes = r.scopes := by
  cases f with
  | mk name params body line =>
    have entered := declareParams_restored params line { r with functionKind := kind }.openScope
    exact (entered.trans (Stmt.restoredAll body _)).outer

mutual

theorem Stmt.passes : ∀ (s : Stmt) {r : Resolution} {around : Surroundings}, r.StandsAt around none →
    r.Passes (s.resolve r) (around.after s.declared) (s.occurrences around)
  | .expr value, _, _, stands => stands.passes_expr value
  | .print items _, _, _, stands => stands.passes_exprs items
  | .varDecl name initial? line, r, around, stands => by
    have first := declare_reports stands.toSees name line
    have inside := stands.restored (restored_declare r name line) (declare_sees stands.toSees name line) rfl
    have second := Expr.reportsAll initial?.toList inside
    have behind := inside.exprs initial?.toList
    exact ⟨(first.append second).congr rfl (define_diagnostics _ name),
      behind.restored (restored_define _ name) (define_sees behind.toSees) rfl⟩
  | .block body, _, _, stands =>
    stands.passes_scope .block rfl rfl (Stmt.restoredAll body _) fun opened => Stmt.reportsAll body opened
  | .ifElse test consequent none, _, _, stands => by
    have first := stands.passes_expr test
    exact first.append (consequent.passes first.stands)
  | .ifElse test consequent (some alternative), _, _, stands => by
    have first := stands.passes_expr test
    have second := consequent.passes first.stands
    have third := alternative.passes second.stands
    refine ⟨(first.append (second.append third)).reports, ?_⟩
    have stands := third.stands
    rwa [Surroundings.after_after] at stands
  | .whileLoop test body, _, _, stands => by
    have first := stands.passes_expr test
    exact first.append (body.passes first.stands)
  | .forLoop none test? step? body, r, around, stands => by
    refine stands.passes_scope .loop rfl rfl ?_ fun opened => ?_
    · exact (Expr.restoredAll test?.toList _).trans ((Expr.restoredAll step?.toList _).trans (body.restored _))
    · have first := opened.passes_conditions test? step?
      exact (first.append (body.passes first.stands)).reports
  | .forLoop (some initial) test? step? body, r, around, stands => by
    refine stands.passes_scope .loop rfl rfl ?_ fun opened => ?_
    · exact (initial.restored _).trans ((Expr.restoredAll test?.toList _).trans
        ((Expr.restoredAll step?.toList _).trans (body.restored _)))
    · have first := initial.passes opened
      have second := first.stands.passes_conditions test? step?
      exact (first.append (second.append (body.passes second.stands))).reports
  | .breakLoop, _, _, stands => .refl stands
  | .continueLoop, _, _, stands => .refl stands
  | .funDecl decl, r, around, stands => by
    have first := stands.passes_declared decl.name decl.line
    have second := decl.reports .function around rfl first.stands.classKind
    refine ⟨first.reports.append second, first.stands.restored (decl.restored .function _) ?_ rfl⟩
    exact first.stands.toSees.of_same (decl.resolve_scopes .function _)
  | .returnValue value? line, _, _, stands => stands.passes_return value? line
  | .classDecl name superclass? methods line, r, around, stands => by
    obtain ⟨entered, kind⟩ := stands.enterClass name superclass? line
    have inside := FunctionDecl.restoredAll methods (enterClass name superclass? line r)
    have second := FunctionDecl.reportsAll methods (around.enter (.classBody superclass?)) kind
    have sees := define_sees (declare_sees (r := { r with classKind := .base }) (stands.toSees.of_same rfl) name line)
    refine ⟨?_, stands.restored (leaveClass_restored name superclass? line inside)
      (sees.of_same (leaveClass_scopes name superclass? line r.classKind inside)) rfl⟩
    rw [Stmt.occurrences, ← List.append_assoc]
    refine (entered.append second).congr rfl ?_
    cases superclass? <;> rfl

theorem FunctionDecl.reports : ∀ (f : FunctionDecl) (enclosure : Enclosure) {kind : FunctionKind} {r : Resolution}
    (around : Surroundings), kind = .within (enclosure :: around.enclosures) →
    r.classKind = .within (enclosure :: around.enclosures) →
    r.Reports (f.resolve kind r) (f.occurrences enclosure around)
  | { name := _, params, body, line }, enclosure, kind, r, around, function, isClass => by
    have opened : ({ r with functionKind := kind } : Resolution).openScope.StandsAt (around.enter enclosure) none :=
      stands_open function isClass
    have first := passes_params params line opened
    exact (first.reports.append (Stmt.reportsAll body first.stands)).congr rfl rfl

theorem Stmt.reportsAll : ∀ (ss : List Stmt) {r : Resolution} {around : Surroundings}, r.StandsAt around none →
    r.Reports (Stmt.resolveAll ss r) (Stmt.occurrencesAll ss around)
  | [], r, _, _ => .refl r
  | s :: ss, _, _, stands => (s.passes stands).reports.append (Stmt.reportsAll ss (s.passes stands).stands)

theorem FunctionDecl.reportsAll : ∀ (fs : List FunctionDecl) {r : Resolution} (around : Surroundings),
    r.classKind = .within around.enclosures →
    r.Reports (FunctionDecl.resolveMethods fs r) (FunctionDecl.occurrencesAll fs around)
  | [], r, _, _ => .refl r
  | f :: fs, _, around, isClass =>
    (f.reports (.method f.name) around rfl isClass).append
      (FunctionDecl.reportsAll fs around ((f.restored _ _).classKind.trans isClass))

end

/-- The diagnostics of a program are the errors among its occurrences, each once and in order. -/
theorem resolve_diagnostics (program : List Stmt) :
    (resolve program).diagnostics = (Stmt.occurrencesAll program .top).filterMap Occurrence.diagnostic? := by
  have start : Resolution.start.StandsAt .top none :=
    ⟨⟨Iff.intro (fun _ => rfl) fun _ => rfl, fun scope is => nomatch is⟩, rfl, rfl⟩
  exact Stmt.reportsAll program start

end Lox
