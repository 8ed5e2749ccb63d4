import Mathlib.Data.List.Forall2
import Lox.Proofs.Machine.Lowering
import Lox.Proofs.Scope.LoweredErrors
import Lox.Proofs.Session.Renaming
import Lox.Proofs.Session.Traceless
import Lox.Proofs.Syntax.LoweredTokens

/-!
Texts with `for` loops written out with `while`. What ran before has left a heap that is framed by itself. A text
and the same one with loops written out leave heaps that are framed, so that all later texts, which may call the
functions of both, are answered alike.
-/

namespace Lox

open Run Session

/-! ### Programs that run -/

/-- A program as the grammar wants it, without errors, whose ids have been handed out from a first one up to the
next one. -/
structure Faultless (first next : Nat) (program : List Stmt) : Prop where
  strata : Stmt.StratifiedAll program
  lexical : Lexical (Stmt.tokensAll program)
  clean : (resolve program).diagnostics = []
  ids : Ascending first next (siteIds (Stmt.sitesAll program []))

theorem accepted_faultless {nextId : Nat} {source : String} (accepted : Accepted nextId source) :
    Faultless nextId (parseSource nextId source).nextId (parseSource nextId source).program := by
  obtain ⟨strata, -, lexical⟩ := accepted_read accepted
  obtain ⟨-, clean⟩ := List.append_eq_nil_iff.mp accepted
  exact ⟨strata, lexical, clean, source_ordered nextId source⟩

namespace Faultless

variable {first next : Nat} {program : List Stmt} {known : Distances} {id : Nat}
variable (faultless : Faultless first next program)
include faultless

/-- What is known of other ids stays. -/
theorem kept (other : id < first ∨ next ≤ id) :
    (known.merge (resolve program).distances).get? id = known.get? id := by
  have outside : id ∉ siteIds (Stmt.sitesAll program []) := fun member => by
    have within := faultless.ids.within id member
    omega
  exact (resolve_merge faultless.strata faultless.lexical faultless.clean known id).trans (if_neg outside)

variable (unknown : ∀ id, first ≤ id → known.get? id = none)
include unknown

theorem fresh (above : next ≤ id) : (known.merge (resolve program).distances).get? id = none :=
  (faultless.kept (Or.inr above)).trans (unknown id (Nat.le_trans faultless.ids.le above))

theorem settled : SettledAll (known.merge (resolve program).distances) next (Stmt.sitesAll program []) := by
  intro site member
  have own := mem_siteIds member
  have within := faultless.ids.within _ own
  have sent := resolve_sent faultless.strata faultless.lexical faultless.clean faultless.ids.nodup site member
  have merged := (resolve_merge faultless.strata faultless.lexical faultless.clean known _).trans (if_pos own)
  rw [unknown _ within.1, Option.or_none] at merged
  exact { sent.congr merged with below := within.2 }

end Faultless

/-! ### Framed sessions -/

/-- What is known of the references of two sessions. -/
def Session.bearings (s t : Session) : Bearings :=
  ⟨s.distances, t.distances, s.nextId, t.nextId⟩

/-- Two sessions that differ in further frames and in functions with loops written out. -/
structure Session.Framed (s t : Session) : Prop where
  machine : ∃ F, s.machine.Framed (s.bearings t) F t.machine
  fresh : s.Fresh
  fresh' : t.Fresh

/-- What is known stays so when more ids are handed out. -/
theorem Bearings.Moved.onward {K K' : Bearings} {gaps : Gaps} {use use' : Use} (moved : K.Moved gaps use use')
    (le : K.nextId ≤ K'.nextId) (le' : K.nextId' ≤ K'.nextId')
    (kept : ∀ id < K.nextId, K'.distances.get? id = K.distances.get? id)
    (kept' : ∀ id < K.nextId', K'.distances'.get? id = K.distances'.get? id) : K'.Moved gaps use use' := by
  refine ⟨moved.1, Nat.lt_of_lt_of_le moved.below le, Nat.lt_of_lt_of_le moved.below' le', ?_, ?_⟩
  · rw [kept _ moved.below, kept' _ moved.below']
    exact moved.distance
  · rw [kept _ moved.below]
    exact moved.super

/-! ### Runs in framed sessions -/

/-- What is looked at of the side that may starve. -/
def Side.pick {α : Type} : Side → α → α → α
  | .given, a, _ => a
  | .other, _, b => b

section Runs

variable {side : Side} {K : Bearings} {F : Framing}

/-- Runs that end framed come to the same, with framed machines, unless the side that may starve does. -/
theorem Run.EndsFramed.same {e e' : EStateM.Result Stop Machine Unit} (ends : EndsFramed side K F Framing.Equal e e')
    (enough : side.pick (outcomeOf e) (outcomeOf e') ≠ .starved) :
    outcomeOf e' = outcomeOf e ∧ ∃ more, (lastMachine e).Framed K more (lastMachine e') := by
  cases ends with
  | ok _ machines _ => exact ⟨rfl, _, machines⟩
  | fault fault _ machines => exact ⟨rfl, _, machines⟩
  | given m e' passes =>
    subst passes
    exact absurd rfl enough
  | other e m' passes =>
    subst passes
    exact absurd rfl enough

variable {s t : Session} {program program' : List Stmt} {next next' n k : Nat}

/-- Of a session that has run a program, what there is then. -/
def Session.ran (s : Session) (next : Nat) (program : List Stmt) (n : Nat) : Outcome × Session :=
  let known := s.distances.merge (resolve program).distances
  let result := interpret (evaluator known n) program s.machine
  (outcomeOf result, ⟨next, known, lastMachine result⟩)

theorem eval_ran {source : String} (accepted : Accepted s.nextId source) (n : Nat) :
    s.eval n source = s.ran (parseSource s.nextId source).nextId (s.program source) n :=
  eval_runs accepted n

/-- In framed sessions a program and the same one with loops written out come to the same. -/
theorem Session.Framed.ran (framed : s.Framed t) (lowers : Stmt.LowersAll program program')
    (faultless : Faultless s.nextId next program) (faultless' : Faultless t.nextId next' program')
    (enough : side.Enough n k) :
    let given := s.ran next program n
    let other := t.ran next' program' k
    side.pick given.1 other.1 ≠ .starved →
      other.1 = given.1 ∧ other.2.machine.output = given.2.machine.output ∧ given.2.Framed other.2 := by
  intro given other settled
  obtain ⟨F, machines⟩ := framed.machine
  let K : Bearings := given.2.bearings other.2
  have grows (gaps : Gaps) (use use' : Use) (moved : (s.bearings t).Moved gaps use use') : K.Moved gaps use use' :=
    moved.onward faultless.ids.le faultless'.ids.le (fun id old => faultless.kept (Or.inl old))
      fun id old => faultless'.kept (Or.inl old)
  have deepens : Stmt.DeepensAll K.Moved [] program program' :=
    lowers.deepens program faultless.strata faultless.lexical rfl .outermost (faultless.settled framed.fresh)
      (faultless'.settled framed.fresh')
  have runs := interpret_framed (.globals machines.heap.globals) enough deepens F s.machine t.machine
    (List.prefix_refl F) ⟨machines.heap.known grows, machines.output⟩
  obtain ⟨same, more, last⟩ := runs.same settled
  exact ⟨same, last.output, ⟨more, last⟩, fun id above => faultless.fresh framed.fresh above,
    fun id above => faultless'.fresh framed.fresh' above⟩

/-- Nothing runs in either session. -/
theorem Session.Framed.skip (framed : s.Framed t) (le : s.nextId ≤ next) (le' : t.nextId ≤ next') :
    Session.Framed { s with nextId := next } { t with nextId := next' } := by
  obtain ⟨F, machines⟩ := framed.machine
  have grows (gaps : Gaps) (use use' : Use) (moved : (s.bearings t).Moved gaps use use') :
      Bearings.Moved ⟨s.distances, t.distances, next, next'⟩ gaps use use' :=
    moved.onward le le' (fun _ _ => rfl) fun _ _ => rfl
  refine ⟨⟨F, machines.heap.known grows, machines.output⟩, fun id above => ?_, fun id above => ?_⟩
  · exact framed.fresh id (Nat.le_trans le above)
  · exact framed.fresh' id (Nat.le_trans le' above)

/-! ### Later texts -/

/-- A text is the same wherever it is read, but for ids. -/
theorem parseSource_lowers (first first' : Nat) (source : String) :
    Stmt.LowersAll (parseSource first source).program (parseSource first' source).program := by
  have read (count : Nat) := (parseSource_shift 0 count source).1
  rw [← Nat.zero_add first, ← Nat.zero_add first', read, read]
  exact Stmt.lowersAll_shift first first' _

theorem parseSource_diagnostics (first first' : Nat) (source : String) :
    (parseSource first' source).diagnostics = (parseSource first source).diagnostics := by
  have read (count : Nat) := (parseSource_shift 0 count source).2.1
  rw [← Nat.zero_add first, ← Nat.zero_add first', read, read]

theorem resolve_parseSource (first first' : Nat) (source : String) :
    (resolve (parseSource first' source).program).diagnostics =
      (resolve (parseSource first source).program).diagnostics := by
  rw [← Nat.zero_add first, ← Nat.zero_add first', resolve_shift_diagnostics, resolve_shift_diagnostics]

end Runs

/-- The outcome of a text is that its run has starved. -/
def Session.Answer.Starved : Answer → Prop
  | .ran outcome _ => outcome = .starved
  | .shown _ => False

/-- Two steps for the same text, to depths of which only one can fall short. -/
inductive Side.EnoughFor (side : Side) : Step → Step → Prop
  | eval {n k : Nat} (source : String) : side.Enough n k → EnoughFor side (.eval n source) (.eval k source)
  | dump (source : String) : EnoughFor side (.dump source) (.dump source)

section Steps

variable {side : Side} {s t : Session}

theorem Session.Framed.output (framed : s.Framed t) : t.machine.output = s.machine.output := by
  obtain ⟨F, machines⟩ := framed.machine
  exact machines.output

/-- A text that both sessions run. -/
theorem Session.Framed.eval (framed : s.Framed t) {n k : Nat} (enough : side.Enough n k) (source : String)
    (settled : side.pick (s.eval n source).1 (t.eval k source).1 ≠ .starved) :
    (t.eval k source).1 = (s.eval n source).1 ∧ (s.eval n source).2.Framed (t.eval k source).2 := by
  have read := parseSource_diagnostics s.nextId t.nextId source
  have walked := resolve_parseSource s.nextId t.nextId source
  by_cases accepted : Accepted s.nextId source
  · have accepted' : Accepted t.nextId source := by
      unfold Accepted at accepted ⊢
      rwa [read, walked]
    rw [eval_ran accepted, eval_ran accepted'] at settled ⊢
    obtain ⟨same, -, onward⟩ := framed.ran (parseSource_lowers s.nextId t.nextId source)
      (accepted_faultless accepted) (accepted_faultless accepted') enough settled
    exact ⟨same, onward⟩
  · have rejected : ¬ Accepted t.nextId source := by
      unfold Accepted at accepted ⊢
      rwa [read, walked]
    rw [eval_rejects accepted, eval_rejects rejected]
    refine ⟨?_, framed.skip (source_ordered _ source).le (source_ordered _ source).le⟩
    dsimp only [program]
    rw [read, walked]

theorem Session.Framed.dump (framed : s.Framed t) (source : String) :
    (t.dump source).1 = (s.dump source).1 ∧ (s.dump source).2.Framed (t.dump source).2 := by
  rw [dump_after, dump_after]
  refine ⟨?_, framed.skip (source_ordered _ source).le (source_ordered _ source).le⟩
  have text : Stmt.dump (parseSource t.nextId source).program = Stmt.dump (parseSource s.nextId source).program := by
    have read (count : Nat) :
        Stmt.dump (parseSource count source).program = Stmt.dump (parseSource 0 source).program := by
      have shifted := (parseSource_shift 0 count source).1
      rw [Nat.zero_add] at shifted
      rw [shifted]
      exact Stmt.dump_relabelAll (fun _ => rfl) _
    rw [read, read s.nextId]
  unfold Session.dump
  dsimp only
  rw [parseSource_diagnostics s.nextId t.nextId, text]
  split <;> rfl

/-- Framed sessions answer a step in the same way, unless the side that may starve does. -/
theorem Session.Framed.step (framed : s.Framed t) {step step' : Step} (enough : side.EnoughFor step step')
    (settled : ¬ (side.pick (step.answer s) (step'.answer t)).Starved) :
    step'.answer t = step.answer s ∧ (step.apply s).Framed (step'.apply t) := by
  cases enough with
  | dump source =>
    obtain ⟨text, onward⟩ := framed.dump source
    exact ⟨congrArg Answer.shown text, onward⟩
  | @eval n k source enough =>
    have goes : side.pick (s.eval n source).1 (t.eval k source).1 ≠ .starved := by
      cases side <;> exact settled
    obtain ⟨same, onward⟩ := framed.eval enough source goes
    refine ⟨?_, onward⟩
    have printed : (t.eval k source).2.printedSince t.printed = (s.eval n source).2.printedSince s.printed := by
      unfold printedSince Session.printed
      rw [onward.output, framed.output]
    rw [Step.answer, Step.answer, same, printed]

/-- Framed sessions answer all steps in the same way, if the side that may starve does not. -/
theorem Session.Framed.answers (framed : s.Framed t) {steps steps' : List Step}
    (enough : List.Forall₂ side.EnoughFor steps steps')
    (settled : ∀ answer ∈ side.pick (s.answers steps) (t.answers steps'), ¬ answer.Starved) :
    t.answers steps' = s.answers steps := by
  induction enough generalizing s t with
  | nil => rfl
  | @cons step step' steps steps' first _ ih =>
    have both : ¬ (side.pick (step.answer s) (step'.answer t)).Starved ∧
        ∀ answer ∈ side.pick ((step.apply s).answers steps) ((step'.apply t).answers steps'), ¬ answer.Starved := by
      cases side <;> exact List.forall_mem_cons.mp settled
    obtain ⟨same, onward⟩ := framed.step first both.1
    rw [Session.answers, Session.answers, same, ih onward both.2]

end Steps

/-! ### The session itself -/

/-- The ids of the functions on the heap of a session have been handed out. -/
theorem closures_below (limit? : Option Nat) (steps : List Step) :
    let s := after limit? steps
    (∀ r c, s.machine.heap.closure? r = some c → c.Below s.nextId) ∧
    ∀ r made name c, s.machine.heap.classObject? r = some made → made.methods.get? name = some c →
      c.Below s.nextId := by
  intro s
  have sound : s.Sound (Visited limit? steps) (AcceptedIn limit? steps) :=
    session_sound (fun _ => visited_closed) (fun _ => id) (List.prefix_refl steps)
  have below {program : List Stmt} {chain : List Place} {inLoop inFunction : Bool} {c : Closure}
      (accepted : AcceptedIn limit? steps program)
      (stands : Stands program chain inLoop inFunction (.function c.decl)) : c.Below s.nextId := by
    obtain ⟨strata, placed, lexical, -⟩ := sound.programs program accepted
    refine ⟨chain, fun site member => ?_⟩
    exact sound.below program accepted _ (mem_siteIds ((stands.fits strata placed lexical).sites site member))
  refine ⟨fun r c found => ?_, fun r made name c found has => ?_⟩
  · obtain ⟨⟨program, chain, accepted, stands, -⟩, -⟩ := sound.heap.closures r c found
    exact below accepted stands
  · obtain ⟨-, chain, className, superclass?, methods, line, member, declared, -⟩ :=
      sound.heap.classes r made name c found has
    cases declared with
    | intro accepted stands => exact below accepted (stands.method member)

/-- A session is framed by itself, whatever steps it has taken. -/
theorem framed_after (limit? : Option Nat) (steps : List Step) : (after limit? steps).Framed (after limit? steps) := by
  have fresh := fresh_after limit? steps
  -- The layout of the frames is the same whatever variable might be renamed.
  have ρ : Renaming := ⟨"", "", [], by decide +kernel, by decide +kernel⟩
  obtain ⟨L, alike⟩ := selfAlike_after ρ limit? steps (after limit? steps).distances
  obtain ⟨closures, methods⟩ := closures_below limit? steps
  exact ⟨⟨_, alike.framed closures methods, rfl⟩, fresh, fresh⟩

/-! ### Loops written out -/

theorem Scan.eq_of_clean {scanned : Scan} (clean : scanned.diagnostics = []) : scanned = ⟨scanned.tokens, []⟩ :=
  congrArg (Scan.mk scanned.tokens) clean

/-- The tokens of a text are those of the program that is read from it. -/
theorem source_written {nextId : Nat} {source : String}
    (clean : (parse nextId (scan source).tokens).diagnostics = []) :
    Stmt.Written (parseSource nextId source).program (scan source).tokens := by
  obtain ⟨before, last, tokens, proper⟩ := scan_tokens source
  have same : (parseSource nextId source).program = (parse nextId (scan source).tokens).program := rfl
  rw [same]
  rw [tokens] at clean ⊢
  have inside : ∀ l ∈ before, l.token ≠ .endOfInput := fun l member => (proper l member).1
  obtain ⟨pinned, -⟩ := parse_pinned inside rfl clean
  exact ⟨before, ⟨.endOfInput, last⟩, rfl, rfl, inside, pinned⟩

/-- A `for` loop equals its `while` form. Let tokens say an accepted text again, on the same lines, but with any of its
loops written out whose bodies have no `continue` of the loop. They are read and walked over without an error, and a
text that has these tokens runs what is read of them. To depths of which only one side can fall short, and unless that
side does, both runs have the same outcome, print the same and leave sessions that answer all later steps alike. -/
theorem for_equals_while (limit? : Option Nat) (steps : List Step) {source : String} {program' : List Stmt}
    {tokens : List Located} (accepted : Accepted (after limit? steps).nextId source)
    (lowers : Stmt.LowersAll ((after limit? steps).program source) program')
    (written : Stmt.Written program' tokens) :
    let s := after limit? steps
    let read := parse s.nextId tokens
    (read.diagnostics = [] ∧ (resolve read.program).diagnostics = []) ∧
    (∀ other, scan other = ⟨tokens, []⟩ → Accepted s.nextId other ∧
      ∀ k, s.eval k other = s.ran read.nextId read.program k) ∧
    ∀ (side : Side) (n k : Nat), side.Enough n k →
      let given := s.eval n source
      let other := s.ran read.nextId read.program k
      side.pick given.1 other.1 ≠ .starved →
        other.1 = given.1 ∧ other.2.printedSince s.printed = given.2.printedSince s.printed ∧
        ∀ (later : Side) (rest rest' : List Step), List.Forall₂ later.EnoughFor rest rest' →
          (∀ answer ∈ later.pick (given.2.answers rest) (other.2.answers rest'), ¬ answer.Starved) →
          other.2.answers rest' = given.2.answers rest := by
  intro s read
  obtain ⟨strata, placed, lexical⟩ := accepted_read accepted
  obtain ⟨clean, lowers⟩ := parse_lowered s.nextId lowers strata placed written
  have faultless := accepted_faultless accepted
  have walked : (resolve read.program).diagnostics = [] := resolve_lowered lowers strata faultless.clean
  have faultless' : Faultless s.nextId read.nextId read.program :=
    ⟨lowers.stratified _ strata, lowers.lexical _ lexical, walked, parse_ordered s.nextId tokens []⟩
  refine ⟨⟨clean, walked⟩, fun other scanned => ?_, fun side n k enough => ?_⟩
  · have same : parseSource s.nextId other = read := by
      unfold parseSource
      rw [scanned]
      rfl
    have accepted' : Accepted s.nextId other := by
      unfold Accepted
      rw [same, clean, walked]
      rfl
    refine ⟨accepted', fun k => ?_⟩
    rw [eval_ran accepted', Session.program, same]
  · intro given other settled
    have framed := framed_after limit? steps
    have runs := framed.ran lowers faultless faultless' enough
    rw [← eval_ran accepted] at runs
    obtain ⟨same, output, onward⟩ := runs settled
    refine ⟨same, ?_, fun later rest rest' enough settled => onward.answers enough settled⟩
    unfold printedSince
    rw [output]

theorem for_equals_while_closure :
    let source := "var h; for (var x = len; x; x = nil) \x7b fun g() \x7b print x; \x7d h = g; \x7d h();"
    let other :=
      "var h; \x7b var x = len; while (x) \x7b \x7b fun g() \x7b print x; \x7d h = g; \x7d x = nil; \x7d \x7d h();"
    let later := "print h(); h = x;"
    let s := after none []
    (Accepted s.nextId source ∧ Stmt.LowersAll (s.program source) (s.program other) ∧
      Stmt.Written (s.program other) (scan other).tokens) ∧
    (Accepted s.nextId other ∧ (s.eval 48 other).1 = (s.eval 12 source).1 ∧
      (s.eval 48 other).2.printedSince s.printed = (s.eval 12 source).2.printedSince s.printed ∧
      (s.eval 48 other).2.answers [.eval 48 later] = (s.eval 12 source).2.answers [.eval 12 later]) ∧
    (s.eval 12 source).1 = .finished ∧ (s.eval 12 source).2.printedSince s.printed = "nil\n".toUTF8 := by
  intro source other later s
  have accepted : Accepted s.nextId source := by decide +kernel
  have given : s.program source = [.varDecl "h" none 1,
      .forLoop (some (.varDecl "x" (some (.var ⟨0, "len", 1⟩)) 1)) (some (.var ⟨1, "x", 1⟩))
        (some (.assign ⟨2, "x", 1⟩ (.literal .nil)))
        (.block [.funDecl ⟨"g", [], [.print [.var ⟨3, "x", 1⟩] 1], 1⟩,
          .expr (.assign ⟨4, "h", 1⟩ (.var ⟨5, "g", 1⟩))]),
      .expr (.call (.var ⟨6, "h", 1⟩) [] 1)] := by
    dsimp only [s, source]
    cbv
  have lowered : s.program other = [.varDecl "h" none 1,
      .whileForm (some (.varDecl "x" (some (.var ⟨0, "len", 1⟩)) 1)) (some (.var ⟨1, "x", 1⟩))
        (some (.assign ⟨5, "x", 1⟩ (.literal .nil)))
        (.block [.funDecl ⟨"g", [], [.print [.var ⟨2, "x", 1⟩] 1], 1⟩,
          .expr (.assign ⟨3, "h", 1⟩ (.var ⟨4, "g", 1⟩))]),
      .expr (.call (.var ⟨6, "h", 1⟩) [] 1)] := by
    dsimp only [s, other]
    cbv
  have lowers : Stmt.LowersAll (s.program source) (s.program other) := by
    rw [given, lowered]
    refine .cons (.varDecl "h" 1 .none) (.cons (.loweredFrom ?_ ?_ ?_ ?_ rfl) (.cons ?_ .nil))
    · exact .varDecl "x" 1 (.some (.var ⟨rfl, rfl⟩))
    · exact .some (.var ⟨rfl, rfl⟩)
    · exact .some (.assign ⟨rfl, rfl⟩ (.literal .nil))
    · refine .block (.cons (.funDecl (.decl "g" [] 1 (.cons ?_ .nil))) (.cons ?_ .nil))
      · exact .print 1 (.cons (.var ⟨rfl, rfl⟩) .nil)
      · exact .expr (.assign ⟨rfl, rfl⟩ (.var ⟨rfl, rfl⟩))
    · exact .expr (.call 1 (.var ⟨rfl, rfl⟩) .nil)
  have written : Stmt.Written (s.program other) (scan other).tokens := source_written (by decide +kernel)
  have finished : (s.eval 12 source).1 = .finished := by decide +kernel
  have enough : Side.given.Enough 12 48 := Nat.le_refl 48
  obtain ⟨-, texts, runs⟩ := for_equals_while none [] accepted lowers written
  have scanned : scan other = ⟨(scan other).tokens, []⟩ := Scan.eq_of_clean (by decide +kernel)
  obtain ⟨accepted', ran⟩ := texts other scanned
  obtain ⟨same, output, onward⟩ := runs .given 12 48 enough (by rw [Side.pick, finished]; decide)
  rw [← ran] at same output onward
  refine ⟨⟨accepted, lowers, written⟩, ⟨accepted', same, output, ?_⟩, finished, by decide +kernel⟩
  refine onward .given [.eval 12 later] [.eval 48 later] (.cons (.eval later enough) .nil) ?_
  have settled : ((s.eval 12 source).2.eval 12 later).1 ≠ .starved := by decide +kernel
  exact List.forall_mem_singleton.mpr settled

end Lox
