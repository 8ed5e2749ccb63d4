import Mathlib
import Lox.Proofs.Machine.Renaming
import Lox.Proofs.Session.Ids
import Lox.Proofs.Session.Images
import Lox.Proofs.Syntax.Completeness

/-!
Texts with a local variable renamed. What ran before has left a heap that is like itself with nothing renamed,
so the run of a text with a variable renamed starts as that of the text does, and does what it does.
-/

namespace Lox

open Run Session

section Ends

variable {ρ : Renaming} {d : Distances} {L : Layout}

/-! ### Outcomes -/

/-- Two outcomes that are the same but for the name of an undefined variable. -/
inductive Outcome.Alike (ρ : Renaming) : Outcome → Outcome → Prop
  | finished : Alike ρ .finished .finished
  | faulted (line : Nat) {error error' : RuntimeError} : error.Alike ρ error' →
    Alike ρ (.faulted ⟨line, error⟩) (.faulted ⟨line, error'⟩)
  | starved : Alike ρ .starved .starved

theorem Run.EndsAlike.outcome {e e' : EStateM.Result Stop Machine Unit} (ends : EndsAlike ρ d L Same e e') :
    (outcomeOf e).Alike ρ (outcomeOf e') := by
  cases ends with
  | ok _ _ _ => exact .finished
  | error _ _ stops =>
    cases stops with
    | fault line errors => exact .faulted line errors
    | starved => exact .starved

theorem Run.EndsAlike.machine {e e' : EStateM.Result Stop Machine Unit} (ends : EndsAlike ρ d L Same e e') :
    ∃ more, (lastMachine e).Alike ρ d more (lastMachine e') := by
  cases ends with
  | ok _ machines _ => exact ⟨_, machines⟩
  | error _ machines _ => exact ⟨_, machines⟩

end Ends

/-! ### Between texts -/

section Sessions

variable {ρ : Renaming} {limit? : Option Nat} {steps : List Step} {s : Session} {source : String} {n : Nat}

/-- The heap of a session is like itself, whatever distances are known. -/
def Session.SelfAlike (ρ : Renaming) (s : Session) : Prop :=
  ∀ d, ∃ L, s.machine.heap.Alike ρ d L s.machine.heap

/-- A program runs like itself, and with a variable renamed like that. -/
theorem Session.SelfAlike.runs (alike : s.SelfAlike ρ) (d : Distances) (n : Nat) {program program' : List Stmt}
    (renamed : Stmt.RenamedAll ρ d [] program program') :
    ∃ L, EndsAlike ρ d L Same (interpret (evaluator d n) program s.machine)
      (interpret (evaluator d n) program' s.machine) := by
  obtain ⟨L, heaps⟩ := alike d
  exact ⟨L, interpret_alike (.globals heaps.globals) n renamed L _ _ (List.prefix_refl L) ⟨heaps, rfl⟩⟩

theorem Session.SelfAlike.step (alike : s.SelfAlike ρ) (step : Step) : (step.apply s).SelfAlike ρ := by
  cases step with
  | dump source => rwa [Step.apply, dump_after]
  | eval depth source =>
    rw [Step.apply]
    by_cases accepted : Accepted s.nextId source
    · rw [eval_accepted accepted]
      have unmarked : Marks.Unmarked [] := by simp [Marks.Unmarked]
      obtain ⟨L, ends⟩ := alike.runs (s.known source) depth (.refl (s.program source) unmarked)
      obtain ⟨more, machines⟩ := ends.machine
      exact fun d => ⟨more.unmarked, machines.heap.self d⟩
    · rwa [eval_rejected accepted]

theorem selfAlike_after (ρ : Renaming) (limit? : Option Nat) (steps : List Step) :
    (after limit? steps).SelfAlike ρ := by
  have onto (s : Session) (alike : s.SelfAlike ρ) : (steps.foldl Step.apply s).SelfAlike ρ := by
    induction steps generalizing s with
    | nil => exact alike
    | cons step steps ih => exact ih (step.apply s) (alike.step step)
  exact onto (.start limit?) fun d => ⟨_, Heap.start_alike ρ d⟩

/-! ### One text -/

/-- Runs a program without errors, to a depth of `n`. -/
def Session.run (n : Nat) (s : Session) (program : List Stmt) : Outcome × Machine :=
  let result := interpret (evaluator (s.distances.merge (resolve program).distances) n) program s.machine
  (outcomeOf result, lastMachine result)

theorem eval_run (accepted : Accepted s.nextId source) (n : Nat) :
    (s.eval n source).1 = (s.run n (s.program source)).1 ∧
    (s.eval n source).2.machine = (s.run n (s.program source)).2 := by
  rw [eval_runs accepted]
  exact ⟨rfl, rfl⟩

theorem run_known {program : List Stmt} {d : Distances}
    (known : s.distances.merge (resolve program).distances = d) (n : Nat) :
    let result := interpret (evaluator d n) program s.machine
    s.run n program = (outcomeOf result, lastMachine result) := by
  subst known
  rfl

/-- The references of a text have the distances that the walk over it finds. -/
theorem known_own (fresh : s.Fresh) (accepted : Accepted s.nextId source) :
    ∀ id ∈ siteIds (Stmt.sitesAll (s.program source) []),
      (s.known source).get? id = (resolve (s.program source)).distances.get? id := by
  intro id own
  have new := fresh id ((source_ordered s.nextId source).within id own).1
  have merged := (accepted_merge accepted s.distances id).trans (if_pos own)
  rw [new, Option.or_none] at merged
  exact merged

/-- A name that no token of a text is occurs nowhere in its statements. -/
theorem program_absent {nextId : Nat} (clean : (parse nextId (scan source).tokens).diagnostics = [])
    (absent : ∀ l ∈ (scan source).tokens, l.token ≠ .identifier ρ.new) :
    ρ.Absent (Stmt.tokensAll (parseSource nextId source).program) := by
  obtain ⟨before, last, tokens, proper⟩ := scan_tokens source
  have same : (parseSource nextId source).program = (parse nextId (scan source).tokens).program := rfl
  rw [tokens] at clean same absent
  obtain ⟨spells, -, -⟩ := parse_all_read (fun l member => (proper l member).1) rfl clean
  intro member
  rw [same] at member
  obtain ⟨l, inside, token⟩ := spells_mem spells member
  exact absent l (List.mem_append_left _ inside) token

/-- An accepted program and the same one with a variable renamed. -/
theorem accepted_renamed (accepted : Accepted s.nextId source)
    (absent : ∀ l ∈ (scan source).tokens, l.token ≠ .identifier ρ.new) (d : Distances) :
    Stmt.RenamedAll ρ d [] (s.program source) (ρ.program d (s.program source)) := by
  obtain ⟨parsed, resolved⟩ := List.append_eq_nil_iff.mp accepted
  obtain ⟨strata, -, lexical⟩ := accepted_read accepted
  have nowhere := program_absent (List.append_eq_nil_iff.mp parsed).2 absent
  exact Stmt.renameAll_renamed _ .start [] [] 0 [] strata lexical nowhere trivial resolved nofun

/-- Renaming a local variable changes nothing. With a name that occurs nowhere in an accepted text in place of
that of a variable or parameter of some scope and of all nodes that refer to it, the program is one of the
grammar, has no errors either and the same distances. It prints the same and comes to the same, but that an
undefined variable may be named otherwise. A text that is read as this program is accepted and does just this. -/
theorem rename_alike (limit? : Option Nat) (steps : List Step) (n : Nat) (ρ : Renaming) {source : String}
    (accepted : Accepted (after limit? steps).nextId source)
    (absent : ∀ l ∈ (scan source).tokens, l.token ≠ .identifier ρ.new) :
    let s := after limit? steps
    let program := s.program source
    let renamed := ρ.program (s.known source) program
    let given := s.eval n source
    let result := s.run n renamed
    Stmt.WellFormed renamed ∧ (resolve renamed).diagnostics = [] ∧
    (resolve renamed).distances = (resolve program).distances ∧
    given.1.Alike ρ result.1 ∧ result.2.output = given.2.machine.output ∧
    ∀ other, (parseSource s.nextId other).diagnostics = [] → s.program other = renamed →
      Accepted s.nextId other ∧ (s.eval n other).1 = result.1 ∧ (s.eval n other).2.machine = result.2 := by
  intro s program renamed given result
  obtain ⟨parsed, resolved⟩ := List.append_eq_nil_iff.mp accepted
  obtain ⟨strata, placed, -⟩ := accepted_read accepted
  have changed : Stmt.RenamedAll ρ (s.known source) [] program renamed := accepted_renamed accepted absent _
  have nowhere := program_absent (List.append_eq_nil_iff.mp parsed).2 absent
  obtain ⟨clean, distances⟩ := resolve_mirrored changed nowhere resolved (source_ordered s.nextId source).nodup
    (known_own (fresh_after limit? steps) accepted)
  have known : s.distances.merge (resolve renamed).distances = s.known source :=
    congrArg s.distances.merge distances
  have ran : given = _ := eval_runs accepted n
  have runs : result = _ := run_known known n
  obtain ⟨L, ends⟩ := (selfAlike_after ρ limit? steps).runs (s.known source) n changed
  obtain ⟨more, machines⟩ := ends.machine
  have wellFormed : Stmt.WellFormed renamed := ⟨changed.stratified program strata, changed.placed program placed⟩
  refine ⟨wellFormed, clean, distances, ?_, ?_, fun other read same => ?_⟩
  · rw [ran, runs]
    exact ends.outcome
  · rw [ran, runs]
    exact machines.output
  · have unharmed : (resolve (s.program other)).diagnostics = [] := by rw [same, clean]
    have both : Accepted s.nextId other := List.append_eq_nil_iff.mpr ⟨read, unharmed⟩
    obtain ⟨outcome, machine⟩ := eval_run both n
    rw [same] at outcome machine
    exact ⟨both, outcome, machine⟩

theorem rename_alike_closure :
    let source := "fun f(x) { fun g() { x = push; } g(); { var x = x = len; } } f(len);"
    let other := "fun f(y) { fun g() { y = push; } g(); { var x = x = len; } } f(len);"
    let s := after none []
    let ρ : Renaming := ⟨"x", "y", [0], by decide +kernel, by decide +kernel⟩
    Accepted s.nextId source ∧ (∀ l ∈ (scan source).tokens, l.token ≠ .identifier ρ.new) ∧
    s.program other = ρ.program (s.known source) (s.program source) ∧
    (resolve (s.program other)).distances = (resolve (s.program source)).distances ∧
    (s.eval 9 source).1 = .faulted ⟨1, .undefinedVariable "x"⟩ ∧ (s.eval 9 source).1.Alike ρ (s.eval 9 other).1 ∧
    (s.eval 9 other).2.machine.output = (s.eval 9 source).2.machine.output := by
  intro source other s ρ
  have accepted : Accepted s.nextId source := by decide +kernel
  have absent : ∀ l ∈ (scan source).tokens, l.token ≠ .identifier ρ.new := by decide +kernel
  have same : s.program other = ρ.program (s.known source) (s.program source) := by
    dsimp only [s, source, other, ρ]
    cbv
  have read : (parseSource s.nextId other).diagnostics = [] := by decide +kernel
  obtain ⟨-, -, distances, outcome, output, texts⟩ := rename_alike none [] 9 ρ accepted absent
  obtain ⟨-, outcome', machine'⟩ := texts other read same
  rw [← same] at distances
  rw [← outcome'] at outcome
  rw [← machine'] at output
  exact ⟨accepted, absent, same, distances, by decide +kernel, outcome, output⟩

end Sessions

end Lox
