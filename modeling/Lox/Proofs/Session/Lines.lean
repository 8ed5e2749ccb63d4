import Lox.Proofs.Session.Traceless

/-!
Lines decide nothing. Two texts with the same tokens may differ in blanks, line feeds and comments, and so in the
lines on which everything stands. They are read, resolved, shown and run alike, in sessions that may differ in
lines themselves: only errors and faults tell on which line they are. The reason is that with all lines made one
both texts come to the same one.
-/

namespace Lox

open Session

/-! ### One line for all -/

/-- Puts everything on one line. -/
def Relabeling.lineless : Relabeling :=
  .lines fun _ => 0

theorem Relabeling.lineless_faithful : lineless.Faithful :=
  ⟨fun _ => rfl, fun _ _ same => same⟩

/-- What a text comes to, whatever the lines of its errors or its fault. -/
def Outcome.lineless : Outcome → Outcome
  | .rejected diagnostics => .rejected (diagnostics.map (Diagnostic.relabel .lineless))
  | .faulted fault => .faulted (fault.relabel .lineless)
  | outcome => outcome

/-- What is seen of a step, whatever the lines. -/
def Session.Answer.lineless : Answer → Answer
  | .ran outcome printed => .ran outcome.lineless printed
  | .shown text => .shown (text.mapError (List.map (Diagnostic.relabel .lineless)))

/-- Two texts consist of the same tokens, on whatever lines, and of no others. -/
structure SameTokens (source source' : String) : Prop where
  clean : (scan source).diagnostics = []
  clean' : (scan source').diagnostics = []
  tokens : (scan source').tokens.map (·.token) = (scan source).tokens.map (·.token)

/-- Two sessions that differ at most in the lines of the functions and methods that they have made. -/
structure Session.SameButLines (s t : Session) : Prop where
  nextId : t.nextId = s.nextId
  distances : ∀ id, t.distances.get? id = s.distances.get? id
  heap : t.machine.heap.relabel .lineless = s.machine.heap.relabel .lineless
  output : t.machine.output = s.machine.output

theorem Session.SameButLines.refl (s : Session) : s.SameButLines s :=
  ⟨rfl, fun _ => rfl, rfl, rfl⟩

theorem Session.SameButLines.machine {s t : Session} (alike : s.SameButLines t) :
    t.machine.relabel .lineless = s.machine.relabel .lineless := by
  unfold Machine.relabel
  rw [alike.heap, alike.output]

theorem Session.SameButLines.printedSince {s t s' t' : Session} (alike : s.SameButLines t)
    (next : s'.SameButLines t') : t'.printedSince t.printed = s'.printedSince s.printed := by
  unfold Session.printedSince Session.printed
  rw [next.output, alike.output]

variable {source source' : String}

/-! ### Reading -/

theorem SameTokens.lineless (same : SameTokens source source') :
    (scan source').tokens.map (Located.relabel .lineless) = (scan source).tokens.map (Located.relabel .lineless) := by
  have bare (tokens : List Located) :
      tokens.map (Located.relabel .lineless) = (tokens.map (·.token)).map fun token => ⟨token, 0⟩ := by
    rw [List.map_map]
    refine List.map_congr_left fun l _ => ?_
    rw [Located.relabel, Token.relabel_kept fun _ => rfl]
    rfl
  rw [bare, bare, same.tokens]

theorem parse_lineless (nextId : Nat) (source : String) :
    parse nextId ((scan source).tokens.map (Located.relabel .lineless)) =
      (parse nextId (scan source).tokens).relabel .lineless :=
  parse_relabel (fun _ => rfl) nextId (scan_ne_nil source)

theorem resolve_lineless (program : List Stmt) :
    Resolution.Image .lineless [] (resolve program) (resolve (Stmt.relabelAll .lineless program)) :=
  Stmt.resolveAll_image Relabeling.lineless_faithful program ⟨rfl, fun _ => rfl, rfl, rfl, rfl⟩

/-- The statements, errors and ids of the two texts. -/
theorem SameTokens.reads (same : SameTokens source source') (nextId : Nat) :
    (parseSource nextId source').relabel .lineless = (parseSource nextId source).relabel .lineless := by
  have read := parse_lineless nextId source
  have read' := parse_lineless nextId source'
  rw [same.lineless, read] at read'
  have clean : parseSource nextId source = parse nextId (scan source).tokens := by
    rw [parseSource, same.clean]
    rfl
  have clean' : parseSource nextId source' = parse nextId (scan source').tokens := by
    rw [parseSource, same.clean']
    rfl
  rw [clean, clean', read']

section Texts

variable (same : SameTokens source source') (first : Nat)
include same

theorem SameTokens.program : Stmt.relabelAll .lineless (parseSource first source').program =
    Stmt.relabelAll .lineless (parseSource first source).program :=
  congrArg Parsed.program (same.reads first)

theorem SameTokens.diagnostics : (parseSource first source').diagnostics.map (Diagnostic.relabel .lineless) =
    (parseSource first source).diagnostics.map (Diagnostic.relabel .lineless) :=
  congrArg Parsed.diagnostics (same.reads first)

theorem SameTokens.ids : (parseSource first source').nextId = (parseSource first source).nextId := by
  have read := congrArg Parsed.nextId (same.reads first)
  exact read

/-! ### Scopes -/

theorem SameTokens.errors : (resolve (parseSource first source').program).diagnostics.map (Diagnostic.relabel .lineless) =
    (resolve (parseSource first source).program).diagnostics.map (Diagnostic.relabel .lineless) := by
  rw [← (resolve_lineless _).diagnostics, ← (resolve_lineless _).diagnostics, same.program first]

theorem SameTokens.distances (id : Nat) : (resolve (parseSource first source').program).distances.get? id =
    (resolve (parseSource first source).program).distances.get? id := by
  have walked (program : List Stmt) :
      (resolve (Stmt.relabelAll .lineless program)).distances.get? id = (resolve program).distances.get? id := by
    have image := (resolve_lineless program).distances id
    rwa [Table.get?_nil, Option.or_none] at image
  rw [← walked, ← walked (parseSource first source).program, same.program first]

theorem SameTokens.accepted_iff : Accepted first source' ↔ Accepted first source := by
  have lengths : ((parseSource first source').diagnostics ++
      (resolve (parseSource first source').program).diagnostics).length =
      ((parseSource first source).diagnostics ++ (resolve (parseSource first source).program).diagnostics).length := by
    have read := congrArg List.length (same.diagnostics first)
    have walked := congrArg List.length (same.errors first)
    simp only [List.length_map] at read walked
    rw [List.length_append, List.length_append, read, walked]
  unfold Accepted
  rw [← List.length_eq_zero_iff, ← List.length_eq_zero_iff, lengths]

end Texts

/-! ### Sessions -/

section Sessions

variable {s t : Session} (alike : s.SameButLines t) (same : SameTokens source source')
include alike same

/-- The two texts are shown alike. -/
theorem Session.SameButLines.dump : (t.dump source').1.mapError (List.map (Diagnostic.relabel .lineless)) =
      (s.dump source).1.mapError (List.map (Diagnostic.relabel .lineless)) ∧
    (s.dump source).2.SameButLines (t.dump source').2 := by
  rw [dump_after, dump_after]
  refine ⟨?_, ?_, alike.distances, alike.heap, alike.output⟩
  · have text : Stmt.dump (parseSource s.nextId source').program = Stmt.dump (parseSource s.nextId source).program := by
      rw [← Stmt.dump_relabelAll (φ := .lineless) (fun _ => rfl), same.program s.nextId,
        Stmt.dump_relabelAll fun _ => rfl]
    have errors := same.diagnostics s.nextId
    unfold Session.dump
    dsimp only
    rw [alike.nextId, text]
    cases found : (parseSource s.nextId source).diagnostics with
    | nil =>
      rw [found, List.map_nil, List.map_eq_nil_iff] at errors
      rw [errors]
    | cons d ds =>
      rw [found] at errors
      cases found' : (parseSource s.nextId source').diagnostics with
      | nil =>
        rw [found'] at errors
        cases errors
      | cons d' ds' =>
        rw [found'] at errors
        exact congrArg Except.error errors
  · rw [alike.nextId]
    exact same.ids s.nextId

/-- Both texts know the same distances when they run. -/
theorem Session.SameButLines.known (accepted : Accepted s.nextId source) (id : Nat) :
    (t.known source').get? id = (s.known source).get? id := by
  have accepted' : Accepted t.nextId source' := by
    rw [alike.nextId]
    exact (same.accepted_iff s.nextId).mpr accepted
  obtain ⟨strata, -, lexical⟩ := accepted_read accepted
  obtain ⟨strata', -, lexical'⟩ := accepted_read accepted'
  have merged := Table.get?_merge (resolve_distinct strata lexical) s.distances id
  have merged' := Table.get?_merge (resolve_distinct strata' lexical') t.distances id
  refine merged'.trans (Eq.trans ?_ merged.symm)
  rw [alike.nextId, same.distances s.nextId, alike.distances]

/-- With all lines made one, the two runs are one. -/
theorem Session.SameButLines.runs (accepted : Accepted s.nextId source) (n : Nat) :
    relabelEnd .lineless id (interpret (evaluator (t.known source') n) (t.program source') t.machine) =
      relabelEnd .lineless id (interpret (evaluator (s.known source) n) (s.program source) s.machine) := by
  have names : Relabeling.lineless.KeepsNames := fun _ => rfl
  have own : Relabeling.lineless.Matches (s.known source) (s.known source) := fun _ => rfl
  have other : Relabeling.lineless.Matches (t.known source') (s.known source) :=
    fun id => (alike.known same accepted id).symm
  have run := interpret_natural names own n (s.program source) s.machine
  have run' := interpret_natural names other n (t.program source') t.machine
  have program : Stmt.relabelAll .lineless (t.program source') = Stmt.relabelAll .lineless (s.program source) := by
    unfold Session.program
    rw [alike.nextId]
    exact same.program s.nextId
  rw [← run, ← run', program, alike.machine]

/-- The two texts run alike. -/
theorem Session.SameButLines.eval (n : Nat) : (t.eval n source').1.lineless = (s.eval n source).1.lineless ∧
    (s.eval n source).2.SameButLines (t.eval n source').2 := by
  by_cases accepted : Accepted s.nextId source
  · have accepted' : Accepted t.nextId source' := by
      rw [alike.nextId]
      exact (same.accepted_iff s.nextId).mpr accepted
    have ends := alike.runs same accepted n
    rw [eval_runs accepted, eval_runs accepted']
    have machines := congrArg lastMachine ends
    rw [lastMachine_relabelEnd, lastMachine_relabelEnd] at machines
    refine ⟨?_, ?_, alike.known same accepted, congrArg Machine.heap machines, ?_⟩
    · have outcomes := congrArg outcomeOf ends
      rw [outcomeOf_relabelEnd, outcomeOf_relabelEnd] at outcomes
      have bare (r : EStateM.Result Stop Machine Unit) : (outcomeOf r).lineless = (outcomeOf r).relabel .lineless := by
        cases r with
        | ok _ _ => rfl
        | error stop _ => cases stop <;> rfl
      rw [bare, bare, outcomes]
    · rw [alike.nextId]
      exact same.ids s.nextId
    · have outputs := congrArg Machine.output machines
      exact outputs
  · have rejected : ¬ Accepted t.nextId source' := by
      rw [alike.nextId]
      exact fun accepted' => accepted ((same.accepted_iff s.nextId).mp accepted')
    rw [eval_rejects accepted, eval_rejects rejected]
    refine ⟨?_, ?_, alike.distances, alike.heap, alike.output⟩
    · refine congrArg Outcome.rejected ?_
      unfold Session.program
      rw [alike.nextId, List.map_append, List.map_append, same.diagnostics s.nextId, same.errors s.nextId]
    · rw [alike.nextId]
      exact same.ids s.nextId

end Sessions

/-- Two texts of the same tokens have the same statements, ids, scopes and errors and are shown and run alike, but
for lines. -/
theorem lines_decide_nothing {s t : Session} (alike : s.SameButLines t) (same : SameTokens source source') (n : Nat) :
    let read := parseSource s.nextId source
    let read' := parseSource t.nextId source'
    (Stmt.relabelAll .lineless read'.program = Stmt.relabelAll .lineless read.program ∧
      read'.diagnostics.map (Diagnostic.relabel .lineless) = read.diagnostics.map (Diagnostic.relabel .lineless) ∧
      read'.nextId = read.nextId) ∧
    ((∀ id, (resolve read'.program).distances.get? id = (resolve read.program).distances.get? id) ∧
      (resolve read'.program).diagnostics.map (Diagnostic.relabel .lineless) =
        (resolve read.program).diagnostics.map (Diagnostic.relabel .lineless)) ∧
    ((t.dump source').1.mapError (List.map (Diagnostic.relabel .lineless)) =
        (s.dump source).1.mapError (List.map (Diagnostic.relabel .lineless)) ∧
      (s.dump source).2.SameButLines (t.dump source').2) ∧
    (t.eval n source').1.lineless = (s.eval n source).1.lineless ∧
    (t.eval n source').2.printedSince t.printed = (s.eval n source).2.printedSince s.printed ∧
    (s.eval n source).2.SameButLines (t.eval n source').2 := by
  dsimp only
  obtain ⟨outcome, next⟩ := alike.eval same n
  have printed := alike.printedSince next
  rw [alike.nextId]
  exact ⟨⟨same.program _, same.diagnostics _, same.ids _⟩, ⟨same.distances _, same.errors _⟩,
    alike.dump same, outcome, printed, next⟩

/-- Blanks, comments, line feeds and other spellings of a number. -/
theorem lines_decide_nothing_comment :
    let source := "fun f(a) { return a + 1; } print f(2.50);"
    let source' := "fun f(a) { return a + 1.0; }\n// one more\nprint /* two and a half */ f(2.5);\n"
    SameTokens source source' ∧
      ((Session.start none).eval 9 source').1.lineless = ((Session.start none).eval 9 source).1.lineless ∧
      ((Session.start none).eval 9 source).2.SameButLines ((Session.start none).eval 9 source').2 := by
  intro source source'
  have same : SameTokens source source' := ⟨by decide +kernel, by decide +kernel, by decide +kernel⟩
  obtain ⟨-, -, -, outcome, -, next⟩ := lines_decide_nothing (.refl (.start none)) same 9
  exact ⟨same, outcome, next⟩

/-! ### Steps in a row -/

/-- Two steps that do the same with texts of the same tokens. -/
inductive Session.Step.SameTokens : Step → Step → Prop
  | eval {text text' : String} (depth : Nat) : Lox.SameTokens text text' →
    Step.SameTokens (.eval depth text) (.eval depth text')
  | dump {text text' : String} : Lox.SameTokens text text' → Step.SameTokens (.dump text) (.dump text')

theorem Session.SameButLines.step {s t : Session} (alike : s.SameButLines t) {step step' : Step}
    (same : step.SameTokens step') : (step'.answer t).lineless = (step.answer s).lineless ∧
      (step.apply s).SameButLines (step'.apply t) := by
  cases same with
  | eval depth same =>
    obtain ⟨outcome, next⟩ := alike.eval same depth
    refine ⟨?_, next⟩
    rw [Step.answer, Step.answer, Answer.lineless, Answer.lineless, outcome, alike.printedSince next]
  | dump same =>
    obtain ⟨text, next⟩ := alike.dump same
    exact ⟨congrArg Answer.shown text, next⟩

/-- All steps of two sessions over texts of the same tokens answer alike. -/
theorem answers_lineless {s t : Session} (alike : s.SameButLines t) {steps steps' : List Step}
    (same : List.Forall₂ Step.SameTokens steps steps') :
    (t.answers steps').map Answer.lineless = (s.answers steps).map Answer.lineless := by
  induction same generalizing s t with
  | nil => rfl
  | cons first _ ih =>
    obtain ⟨answer, next⟩ := alike.step first
    rw [answers, answers, List.map_cons, List.map_cons, answer, ih next]

end Lox
