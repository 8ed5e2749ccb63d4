import Lox.Proofs.Scope.StaticErrors
import Lox.Proofs.Syntax.Lowering

/-!
Writing `for` loops out with `while` puts nothing out of place. There is one block more around the body of such a
loop, in which nothing is declared.
-/

namespace Lox

/-- No error is among some occurrences. -/
def Clean (occurrences : List Occurrence) : Prop :=
  ∀ o ∈ occurrences, o.error? = none

theorem clean_nil : Clean [] :=
  List.forall_mem_nil _

theorem clean_append {os os' : List Occurrence} : Clean (os ++ os') ↔ Clean os ∧ Clean os' :=
  List.forall_mem_append

theorem resolve_clean_iff (program : List Stmt) :
    (resolve program).diagnostics = [] ↔ Clean (Stmt.occurrencesAll program .top) := by
  rw [resolve_diagnostics, List.filterMap_eq_nil_iff]
  refine forall₂_congr fun o _ => ?_
  rw [Occurrence.diagnostic?, Option.map_eq_none_iff]

/-! ### Surroundings -/

/-- Other surroundings in which nothing more is out of place: within the same function and class, and with no further
names declared in the same scope. -/
structure Surroundings.Admits (around around' : Surroundings) : Prop where
  outermost : around'.enclosures = [] ↔ around.enclosures = []
  innermostFunction? : around'.innermostFunction? = around.innermostFunction?
  outOfClass : around'.innermostClass? = none ↔ around.innermostClass? = none
  inBase : around'.innermostClass? = some (.classBody none) ↔ around.innermostClass? = some (.classBody none)
  earlier : ∀ name ∈ around'.earlier, name ∈ around.earlier

section Surroundings

variable {around around' : Surroundings}

theorem Surroundings.Admits.refl (around : Surroundings) : around.Admits around :=
  ⟨Iff.rfl, rfl, Iff.rfl, Iff.rfl, fun _ member => member⟩

variable (admits : around.Admits around')
include admits

theorem Surroundings.Admits.enter (enclosure : Enclosure) :
    (around.enter enclosure).Admits (around'.enter enclosure) := by
  refine ⟨by simp [Surroundings.enter], ?_, ?_, ?_, nofun⟩
  · have same := admits.innermostFunction?
    cases enclosure <;> first | exact same | rfl
  · have same := admits.outOfClass
    cases enclosure <;> first | exact same | exact Iff.rfl
  · have same := admits.inBase
    cases enclosure <;> first | exact same | exact Iff.rfl

theorem Surroundings.Admits.enterClass {superclass? superclass'? : Option Use}
    (same : Option.Rel Use.SameButId superclass? superclass'?) :
    (around.enter (.classBody superclass?)).Admits (around'.enter (.classBody superclass'?)) := by
  refine ⟨by simp [Surroundings.enter], admits.innermostFunction?, ?_, ?_, nofun⟩
  · simp [Surroundings.enter, Surroundings.innermostClass?]
  · cases same <;> simp [Surroundings.enter, Surroundings.innermostClass?]

theorem Surroundings.Admits.after (names : List String) : (around.after names).Admits (around'.after names) :=
  { admits with
    earlier := fun name member =>
      List.mem_append.mpr ((List.mem_append.mp member).imp_right (admits.earlier name)) }

/-- A block in place of a `for`. -/
theorem Surroundings.Admits.inPlace : (around.enter .loop).Admits (around'.enter .block) :=
  ⟨by simp [Surroundings.enter], admits.innermostFunction?, admits.outOfClass, admits.inBase, nofun⟩

/-- A further block within a scope. -/
theorem Surroundings.Admits.within (inside : around.enclosures ≠ []) : around.Admits (around'.enter .block) :=
  ⟨by simp [Surroundings.enter, inside], admits.innermostFunction?, admits.outOfClass, admits.inBase, nofun⟩

theorem Surroundings.Admits.clean {mention : Mention} {initializing? : Option String}
    (clean : Occurrence.error? ⟨mention, around, initializing?⟩ = none) :
    Occurrence.error? ⟨mention, around', initializing?⟩ = none := by
  obtain ⟨node, line⟩ := mention
  cases node with
  | declares name =>
    simp only [Occurrence.error?, ite_eq_right_iff, reduceCtorEq, imp_false, not_and] at clean ⊢
    intro enclosed member
    exact clean (fun none => enclosed (admits.outermost.mpr none)) (admits.earlier name member)
  | _ =>
    simp only [Occurrence.error?, ne_eq, admits.outermost, admits.innermostFunction?, admits.outOfClass, admits.inBase]
      at clean ⊢
    exact clean

theorem Surroundings.Admits.occurrencesIn {initializing? : Option String} {mentions : List Mention}
    (clean : Clean (occurrencesIn around initializing? mentions)) :
    Clean (occurrencesIn around' initializing? mentions) := by
  unfold Clean Lox.occurrencesIn at *
  rw [List.forall_mem_map] at *
  exact fun mention member => admits.clean (clean mention member)

omit admits in
theorem Surroundings.Admits.params (admits : around.Admits around') {line : Nat} {params : List String}
    (clean : Clean (paramOccurrences line params around)) : Clean (paramOccurrences line params around') := by
  induction params generalizing around around' with
  | nil => exact clean_nil
  | cons name params ih =>
    obtain ⟨first, others⟩ := List.forall_mem_cons.mp clean
    exact List.forall_mem_cons.mpr ⟨admits.clean first, ih (admits.after [name]) others⟩

end Surroundings

/-! ### What is mentioned and declared -/

mutual

theorem Expr.Alike.mentions : ∀ (e : Expr) {e' : Expr}, e.Alike Use.SameButId e' → e'.mentions = e.mentions
  | .literal _, _, .literal _ => rfl
  | .group inner, _, .group alike => alike.mentions inner
  | .unary _ operand _, _, .unary _ _ alike => alike.mentions operand
  | .binary _ left right _, _, .binary _ _ first second => by
    rw [Expr.mentions, Expr.mentions, first.mentions left, second.mentions right]
  | .conditional test consequent alternative, _, .conditional first second third => by
    rw [Expr.mentions, Expr.mentions, first.mentions test, second.mentions consequent, third.mentions alternative]
  | .var _, _, .var same => by rw [Expr.mentions, Expr.mentions, same.1, same.2]
  | .assign _ value, _, .assign _ alike => alike.mentions value
  | .thisRef _ _, _, .thisRef _ _ => rfl
  | .superRef _ _ _, _, .superRef _ _ _ => rfl
  | .call callee arguments _, _, .call _ first others => by
    rw [Expr.mentions, Expr.mentions, first.mentions callee, others.mentions arguments]
  | .field object _ _, _, .field _ _ alike => alike.mentions object
  | .setField object _ value _, _, .setField _ _ first second => by
    rw [Expr.mentions, Expr.mentions, first.mentions object, second.mentions value]
  | .array elements, _, .array all => all.mentions elements
  | .element sequence index _, _, .element _ first second => by
    rw [Expr.mentions, Expr.mentions, first.mentions sequence, second.mentions index]
  | .setElement sequence index value _, _, .setElement _ first second third => by
    rw [Expr.mentions, Expr.mentions, first.mentions sequence, second.mentions index, third.mentions value]

theorem Expr.AlikeAll.mentions : ∀ (es : List Expr) {es' : List Expr}, Expr.AlikeAll Use.SameButId es es' →
    Expr.mentionsAll es' = Expr.mentionsAll es
  | [], _, .nil => rfl
  | e :: es, _, .cons first others => by
    rw [Expr.mentionsAll, Expr.mentionsAll, first.mentions e, others.mentions es]

end

theorem Expr.AlikeOpt.mentions {e? e'? : Option Expr} (alike : Expr.AlikeOpt Use.SameButId e? e'?) :
    Expr.mentionsOpt e'? = Expr.mentionsOpt e? := by
  cases alike with
  | none => rfl
  | some alike => exact congrArg (· ++ []) (alike.mentions _)

theorem superclassMentions_same {name : String} {use? use'? : Option Use} (same : Option.Rel Use.SameButId use? use'?) :
    superclassMentions name use'? = superclassMentions name use? := by
  cases same with
  | none => rfl
  | some same => rw [superclassMentions, superclassMentions, same.1, same.2]

theorem returnMentions_same {line : Nat} {value? value'? : Option Expr}
    (alike : Expr.AlikeOpt Use.SameButId value? value'?) :
    returnMentions line value'? = returnMentions line value? := by
  cases alike with
  | none => rfl
  | some alike => rw [returnMentions, returnMentions, alike.mentions]

theorem Stmt.Lowers.declared : ∀ (s : Stmt) {s' : Stmt}, s.Lowers s' → s'.declared = s.declared
  | .ifElse _ consequent none, _, .ifThen _ lowers => lowers.declared consequent
  | .ifElse _ consequent (some alternative), _, .ifElse _ first second => by
    rw [Stmt.declared, Stmt.declared, first.declared consequent, second.declared alternative]
  | .whileLoop _ body, _, .whileLoop _ lowers => lowers.declared body
  | .funDecl _, _, .funDecl (.decl _ _ _ _) => rfl
  | _, _, .expr .. | _, _, .print .. | _, _, .varDecl .. | _, _, .block .. | _, _, .forLoop .. | _, _, .forFrom ..
  | _, _, .lowered .. | _, _, .loweredFrom .. | _, _, .breakLoop | _, _, .continueLoop | _, _, .returnValue ..
  | _, _, .classDecl .. => rfl

/-- Behind a condition nothing is declared. -/
theorem Stmt.declared_plain : ∀ s : Stmt, s.Plain → s.Stratified → s.declared = []
  | .ifElse _ consequent none, _, strata => consequent.declared_plain strata.2.1 strata.2.2
  | .ifElse _ consequent (some alternative), _, strata => by
    rw [Stmt.declared, consequent.declared_plain strata.2.1.1 strata.2.1.2.1,
      alternative.declared_plain strata.2.2.1 strata.2.2.2]
    rfl
  | .whileLoop _ body, _, strata => body.declared_plain strata.2.1 strata.2.2
  | .varDecl .., plain, _ | .funDecl .., plain, _ | .classDecl .., plain, _ => plain.elim
  | .expr .., _, _ | .print .., _, _ | .block .., _, _ | .forLoop .., _, _ | .breakLoop, _, _ | .continueLoop, _, _
  | .returnValue .., _, _ => rfl

/-! ### Loops written out -/

/-- A round as it is written out stands in a further block, and the step in it behind the body. -/
theorem clean_roundForm {around around' : Surroundings} {step? step'? : Option Expr} {body' : Stmt}
    (admits : around.Admits (around'.enter .block)) (step : Expr.AlikeOpt Use.SameButId step? step'?)
    (plain : body'.declared = []) (stepClean : Clean (occurrencesIn around none (Expr.mentionsOpt step?)))
    (bodyClean : Clean (body'.occurrences (around'.enter .block))) :
    Clean ((Stmt.roundForm step'? body').occurrences around') := by
  have behind : (around'.enter .block).after body'.declared = around'.enter .block := by
    rw [plain]
    rfl
  rw [Stmt.roundForm, Stmt.occurrences, Stmt.occurrencesAll, behind, clean_append]
  refine ⟨bodyClean, ?_⟩
  cases step with
  | none => exact clean_nil
  | some alike =>
    refine clean_append.mpr ⟨?_, clean_nil⟩
    rw [Stmt.occurrences, alike.mentions]
    refine admits.occurrencesIn fun o member => stepClean o ?_
    rwa [Expr.mentionsOpt, Option.toList_some, Expr.mentionsAll, Expr.mentionsAll, List.append_nil]

theorem clean_test {around around' : Surroundings} {test? test'? : Option Expr} (admits : around.Admits around')
    (alike : Expr.AlikeOpt Use.SameButId test? test'?)
    (clean : Clean (occurrencesIn around none (Expr.mentionsOpt test?))) :
    Clean (occurrencesIn around' none (test'?.getD (.literal (.bool true))).mentions) := by
  cases alike with
  | none => exact clean_nil
  | some alike =>
    rw [Option.getD_some, alike.mentions]
    refine admits.occurrencesIn fun o member => clean o ?_
    rwa [Expr.mentionsOpt, Option.toList_some, Expr.mentionsAll, Expr.mentionsAll, List.append_nil]

/-- A `for` from behind its first clause on. -/
theorem clean_whileLoop {around around' : Surroundings} {test? test'? step? step'? : Option Expr} {body' : Stmt}
    (admits : around.Admits around') (inside : around.enclosures ≠ [])
    (test : Expr.AlikeOpt Use.SameButId test? test'?) (step : Expr.AlikeOpt Use.SameButId step? step'?)
    (plain : body'.declared = [])
    (clean : Clean (occurrencesIn around none (Expr.mentionsOpt test? ++ Expr.mentionsOpt step?)))
    (bodyClean : Clean (body'.occurrences (around'.enter .block))) :
    Clean ((Stmt.whileLoop (test'?.getD (.literal (.bool true))) (.roundForm step'? body')).occurrences around') := by
  rw [occurrencesIn_append] at clean
  obtain ⟨testClean, stepClean⟩ := clean_append.mp clean
  exact clean_append.mpr ⟨clean_test admits test testClean,
    clean_roundForm (admits.within inside) step plain stepClean bodyClean⟩

mutual

/-- What has no error among its occurrences has none with loops written out. -/
theorem Stmt.Lowers.clean : ∀ (s : Stmt) {s' : Stmt} {around around' : Surroundings}, s.Lowers s' → s.Stratified →
    around.Admits around' → Clean (s.occurrences around) → Clean (s'.occurrences around')
  | .expr value, _, _, _, .expr alike, _, admits, clean => by
    rw [Stmt.occurrences, alike.mentions value]
    exact admits.occurrencesIn clean
  | .print items _, _, _, _, .print _ all, _, admits, clean => by
    rw [Stmt.occurrences, all.mentions items]
    exact admits.occurrencesIn clean
  | .varDecl name _ _, _, _, _, .varDecl _ _ alike, _, admits, clean => by
    obtain ⟨first, second⟩ := clean_append.mp clean
    rw [Stmt.occurrences, alike.mentions]
    exact clean_append.mpr ⟨admits.occurrencesIn first, admits.occurrencesIn second⟩
  | .block body, _, _, _, .block lowers, strata, admits, clean => lowers.clean body strata (admits.enter .block) clean
  | .ifElse test consequent none, _, _, _, .ifThen same lowers, strata, admits, clean => by
    obtain ⟨first, second⟩ := clean_append.mp clean
    rw [Stmt.occurrences, same.mentions test]
    exact clean_append.mpr ⟨admits.occurrencesIn first, lowers.clean consequent strata.2.2 admits second⟩
  | .ifElse test consequent (some alternative), _, _, _, .ifElse same one other, strata, admits, clean => by
    obtain ⟨first, rest⟩ := clean_append.mp clean
    obtain ⟨second, third⟩ := clean_append.mp rest
    rw [Stmt.occurrences, same.mentions test, one.declared]
    exact clean_append.mpr ⟨admits.occurrencesIn first, clean_append.mpr
      ⟨one.clean consequent strata.2.1.2.1 admits second,
        other.clean alternative strata.2.2.2 (admits.after _) third⟩⟩
  | .whileLoop test body, _, _, _, .whileLoop same lowers, strata, admits, clean => by
    obtain ⟨first, second⟩ := clean_append.mp clean
    rw [Stmt.occurrences, same.mentions test]
    exact clean_append.mpr ⟨admits.occurrencesIn first, lowers.clean body strata.2.2 admits second⟩
  | .forLoop none _ _ body, _, _, _, .forLoop test step lowers, strata, admits, clean => by
    obtain ⟨first, second⟩ := clean_append.mp clean
    rw [Stmt.occurrences, test.mentions, step.mentions]
    exact clean_append.mpr ⟨(admits.enter .loop).occurrencesIn first,
      lowers.clean body strata.2.2.2 (admits.enter .loop) second⟩
  | .forLoop (some initial) _ _ body, _, _, _, .forFrom initials test step lowers, ⟨⟨_, strata⟩, _, _, _, inside⟩,
      admits, clean => by
    obtain ⟨first, rest⟩ := clean_append.mp clean
    obtain ⟨second, third⟩ := clean_append.mp rest
    rw [Stmt.occurrences, test.mentions, step.mentions, initials.declared]
    have behind := (admits.enter .loop).after initial.declared
    exact clean_append.mpr ⟨initials.clean initial strata (admits.enter .loop) first,
      clean_append.mpr ⟨behind.occurrencesIn second, lowers.clean body inside behind third⟩⟩
  | .forLoop none _ _ body, _, _, _, .lowered test step lowers _, ⟨_, _, plain, strata⟩, admits, clean => by
    obtain ⟨first, second⟩ := clean_append.mp clean
    have declared := (lowers.declared body).trans (body.declared_plain plain strata)
    have inside := lowers.clean body strata (admits.inPlace.within (List.cons_ne_nil _ _)) second
    have loop := clean_whileLoop admits.inPlace (List.cons_ne_nil _ _) test step declared first inside
    exact clean_append.mpr ⟨loop, clean_nil⟩
  | .forLoop (some initial) _ _ body, _, _, _, .loweredFrom initials test step lowers _,
      ⟨⟨_, strata⟩, _, _, plain, inside⟩, admits, clean => by
    obtain ⟨first, rest⟩ := clean_append.mp clean
    obtain ⟨second, third⟩ := clean_append.mp rest
    have declared := (lowers.declared body).trans (body.declared_plain plain inside)
    have behind := admits.inPlace.after initial.declared
    have round := lowers.clean body inside (behind.within (List.cons_ne_nil _ _)) third
    refine clean_append.mpr ⟨initials.clean initial strata admits.inPlace first, ?_⟩
    rw [initials.declared]
    have loop := clean_whileLoop behind (List.cons_ne_nil _ _) test step declared second round
    exact clean_append.mpr ⟨loop, clean_nil⟩
  | .breakLoop, _, _, _, .breakLoop, _, _, clean => clean
  | .continueLoop, _, _, _, .continueLoop, _, _, clean => clean
  | .funDecl decl, _, _, _, .funDecl lowers, strata, admits, clean => by
    obtain ⟨first, second⟩ := clean_append.mp clean
    have inside := lowers.clean decl strata admits second
    cases lowers with
    | decl name params line _ => exact clean_append.mpr ⟨admits.occurrencesIn first, inside⟩
  | .returnValue _ _, _, _, _, .returnValue line alike, _, admits, clean => by
    rw [Stmt.occurrences, returnMentions_same alike]
    exact admits.occurrencesIn clean
  | .classDecl name superclass? methods _, _, _, _, .classDecl _ _ superclass lowers, strata, admits, clean => by
    obtain ⟨first, rest⟩ := clean_append.mp clean
    obtain ⟨second, third⟩ := clean_append.mp rest
    rw [Stmt.occurrences, superclassMentions_same superclass]
    exact clean_append.mpr ⟨admits.occurrencesIn first, clean_append.mpr
      ⟨(admits.after [name]).occurrencesIn second, lowers.clean methods strata (admits.enterClass superclass) third⟩⟩

theorem FunctionDecl.Lowers.clean : ∀ (f : FunctionDecl) {f' : FunctionDecl} {enclosure : Enclosure}
    {around around' : Surroundings}, f.Lowers f' → f.Stratified → around.Admits around' →
    Clean (f.occurrences enclosure around) → Clean (f'.occurrences enclosure around')
  | { name := _, params, body, line := _ }, _, enclosure, _, _, .decl _ _ _ lowers, strata, admits, clean => by
    obtain ⟨first, second⟩ := clean_append.mp clean
    have inside := admits.enter enclosure
    exact clean_append.mpr ⟨inside.params first, lowers.clean body strata (inside.after params) second⟩

theorem Stmt.LowersAll.clean : ∀ (ss : List Stmt) {ss' : List Stmt} {around around' : Surroundings},
    Stmt.LowersAll ss ss' → Stmt.StratifiedAll ss → around.Admits around' → Clean (Stmt.occurrencesAll ss around) →
    Clean (Stmt.occurrencesAll ss' around')
  | [], _, _, _, .nil, _, _, clean => clean
  | s :: ss, _, _, _, .cons one others, strata, admits, clean => by
    obtain ⟨first, second⟩ := clean_append.mp clean
    rw [Stmt.occurrencesAll, one.declared]
    exact clean_append.mpr ⟨one.clean s strata.1 admits first, others.clean ss strata.2 (admits.after _) second⟩

theorem FunctionDecl.LowersAll.clean : ∀ (fs : List FunctionDecl) {fs' : List FunctionDecl}
    {around around' : Surroundings}, FunctionDecl.LowersAll fs fs' → FunctionDecl.StratifiedAll fs →
    around.Admits around' → Clean (FunctionDecl.occurrencesAll fs around) →
    Clean (FunctionDecl.occurrencesAll fs' around')
  | [], _, _, _, .nil, _, _, clean => clean
  | f :: fs, _, _, _, .cons one others, strata, admits, clean => by
    obtain ⟨first, second⟩ := clean_append.mp clean
    have inside := one.clean f strata.1 admits first
    cases one with
    | decl name params line _ => exact clean_append.mpr ⟨inside, others.clean fs strata.2 admits second⟩

end

/-- A program without errors has none with loops written out. -/
theorem resolve_lowered {program program' : List Stmt} (lowers : Stmt.LowersAll program program')
    (strata : Stmt.StratifiedAll program) (clean : (resolve program).diagnostics = []) :
    (resolve program').diagnostics = [] := by
  rw [resolve_clean_iff] at clean ⊢
  exact lowers.clean program strata (.refl .top) clean

end Lox
