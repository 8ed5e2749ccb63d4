import Lox.Proofs.Session.Images

/-!
Steps that leave no trace. A text that is only shown, or that has an error, takes ids and does nothing
else. The session behind it is the image of the one in front of it with later ids to come, so all later
steps answer as if it had not been there.
-/

namespace Lox

open Session

/-! ### Answers -/

/-- What is seen of a step. -/
inductive Session.Answer
  | ran (outcome : Outcome) (printed : ByteArray)
  | shown (text : Except (List Diagnostic) String)

def Session.Step.answer (s : Session) : Step → Answer
  | .eval depth source => .ran (s.eval depth source).1 ((s.eval depth source).2.printedSince s.printed)
  | .dump source => .shown (s.dump source).1

/-- What is seen of some steps of a session, one after the other. -/
def Session.answers (s : Session) : List Step → List Answer
  | [] => []
  | step :: rest => step.answer s :: (step.apply s).answers rest

theorem answers_append (s : Session) (before rest : List Step) :
    s.answers (before ++ rest) = s.answers before ++ (before.foldl Step.apply s).answers rest := by
  induction before generalizing s with
  | nil => rfl
  | cons step before ih => exact congrArg (step.answer s :: ·) (ih (step.apply s))

/-! ### Steps with marked lines -/

section Marked

variable (mark : Nat → Nat)

def Session.Step.applyMarked (s : Session) : Step → Session
  | .eval depth source => (s.evalMarked mark depth source).2
  | .dump source => (s.dump source).2

/-- What is seen of a step whose text has its lines changed. -/
def Session.Step.answerMarked (s : Session) : Step → Answer
  | .eval depth source =>
    .ran (s.evalMarked mark depth source).1 ((s.evalMarked mark depth source).2.printedSince s.printed)
  | .dump source => .shown (s.dump source).1

def Session.answersMarked (s : Session) : List Step → List Answer
  | [] => []
  | step :: rest => step.answerMarked mark s :: (step.applyMarked mark s).answersMarked rest

end Marked

theorem answersMarked_unmarked (s : Session) (steps : List Step) :
    s.answersMarked (fun line => line) steps = s.answers steps := by
  induction steps generalizing s with
  | nil => rfl
  | cons step rest ih =>
    rw [answersMarked, answers, ih]
    cases step with
    | dump source => rfl
    | eval depth source =>
      have same := evalMarked_unmarked depth s source
      rw [Step.answerMarked, Step.applyMarked, Step.answer, Step.apply, same]

def Session.Answer.relabel (φ : Relabeling) : Answer → Answer
  | .ran outcome printed => .ran (outcome.relabel φ) printed
  | answer => answer

section Images

variable {φ : Relabeling} {s t : Session} (image : Image φ s t)
include image

/-- The image of a session answers each step as the session does but for the lines. -/
theorem step_image {mark mark' : Nat → Nat} (marked : ∀ line, φ.line (mark line) = mark' line) (step : Step) :
    step.answerMarked mark' t = (step.answerMarked mark s).relabel φ ∧
      Image φ (step.applyMarked mark s) (step.applyMarked mark' t) := by
  cases step with
  | dump source =>
    obtain ⟨text, next⟩ := image.dump source
    exact ⟨congrArg Answer.shown text, next⟩
  | eval depth source =>
    obtain ⟨outcome, next⟩ := image.evalMarked marked depth source
    have printed : (t.evalMarked mark' depth source).2.printedSince t.printed =
        (s.evalMarked mark depth source).2.printedSince s.printed := by
      unfold printedSince Session.printed
      rw [next.machine, image.machine]
      rfl
    refine ⟨?_, next⟩
    rw [Step.answerMarked, Step.answerMarked, Answer.relabel, outcome, printed]

theorem answersMarked_image {mark mark' : Nat → Nat} (marked : ∀ line, φ.line (mark line) = mark' line)
    (steps : List Step) :
    t.answersMarked mark' steps = (s.answersMarked mark steps).map (Answer.relabel φ) := by
  induction steps generalizing s t with
  | nil => rfl
  | cons step rest ih =>
    obtain ⟨answer, next⟩ := step_image image marked step
    rw [answersMarked, answersMarked, answer, ih next]
    rfl

end Images

theorem Outcome.relabel_kept {φ : Relabeling} (lines : ∀ line, φ.line line = line) (outcome : Outcome) :
    outcome.relabel φ = outcome := by
  cases outcome with
  | faulted fault =>
    obtain ⟨line, error⟩ := fault
    rw [Outcome.relabel, Fault.relabel, lines]
  | _ => rfl

theorem Answer.relabel_kept {φ : Relabeling} (lines : ∀ line, φ.line line = line) (answer : Answer) :
    answer.relabel φ = answer := by
  cases answer with
  | ran outcome printed => rw [Answer.relabel, Outcome.relabel_kept lines]
  | shown text => rfl

/-- The image of a session with the same lines answers all steps as the session does. -/
theorem answers_image {φ : Relabeling} {s t : Session} (image : Image φ s t)
    (lines : ∀ line, φ.line line = line) (steps : List Step) : t.answers steps = s.answers steps := by
  have answers := answersMarked_image image lines steps
  rw [answersMarked_unmarked, answersMarked_unmarked] at answers
  rw [answers]
  exact List.map_id'' (Answer.relabel_kept lines) _

/-! ### Ids that were handed out -/

/-- A change of ids from a number on, and of nothing else. -/
structure Relabeling.ChangesFrom (φ : Relabeling) (first : Nat) : Prop where
  names : φ.KeepsNames
  lines : ∀ line, φ.line line = line
  below : ∀ id < first, φ.id id = id
  above : ∀ id, first ≤ id → first ≤ φ.id id

variable {φ : Relabeling} {first : Nat}

theorem Stmt.relabelAll_fixed (changes : φ.ChangesFrom first) {program : List Stmt}
    (below : ∀ id ∈ siteIds (Stmt.sitesAll program []), id < first) : Stmt.relabelAll φ program = program := by
  have joins : Relabeling.Joins φ .unchanged .unchanged (siteIds (Stmt.sitesAll program [])) :=
    ⟨fun id member => changes.below id (below id member), changes.lines, changes.names⟩
  have same := Stmt.relabelAll_relabelAll program [] joins
  rwa [Stmt.relabelAll_unchanged, Stmt.relabelAll_unchanged] at same

/-- Distances of old ids only do not show later ids. -/
theorem matches_fixed (changes : φ.ChangesFrom first) {distances : Distances}
    (fresh : ∀ id, first ≤ id → distances.get? id = none) : φ.Matches distances distances := by
  intro id
  by_cases old : id < first
  · rw [changes.below id old]
  · have above : first ≤ id := Nat.not_lt.mp old
    rw [fresh id above, fresh _ (changes.above id above)]

/-- A run of a program of old ids on a machine of old ids, where later ids change. -/
theorem interpret_fixed (changes : φ.ChangesFrom first) {distances known : Distances}
    (same : φ.Matches distances known) (n : Nat) {program : List Stmt}
    (below : ∀ id ∈ siteIds (Stmt.sitesAll program []), id < first) {m : Machine} (fixed : m.relabel φ = m) :
    interpret (evaluator known n) program m = relabelEnd φ id (interpret (evaluator distances n) program m) := by
  have runs := interpret_natural changes.names same n program m
  rwa [Stmt.relabelAll_fixed changes below, fixed] at runs

theorem step_fixed {s : Session} (fixed : s.machine.relabel φ = s.machine) (changes : φ.ChangesFrom first)
    {step : Step} (fresh : (step.apply s).Fresh) (le : (step.apply s).nextId ≤ first) :
    (step.apply s).machine.relabel φ = (step.apply s).machine := by
  cases step with
  | dump source =>
    rw [Step.apply, dump_after]
    exact fixed
  | eval depth source =>
    rw [Step.apply] at fresh le ⊢
    by_cases accepted : Accepted s.nextId source
    · rw [eval_accepted accepted] at fresh le ⊢
      have below : ∀ id ∈ siteIds (Stmt.sitesAll (s.program source) []), id < first := fun id member =>
        Nat.lt_of_lt_of_le ((source_ordered s.nextId source).within id member).2 le
      have distances : φ.Matches (s.known source) (s.known source) :=
        matches_fixed changes fun id above => fresh id (Nat.le_trans le above)
      have last := congrArg lastMachine (interpret_fixed changes distances depth below fixed)
      rw [lastMachine_relabelEnd] at last
      exact last.symm
    · rw [eval_rejected accepted]
      exact fixed

theorem machine_start_relabel (limit? : Option Nat) : (Machine.start limit?).relabel φ = .start limit? := by
  simp [Machine.relabel, Machine.start, Heap.relabel, Heap.start]

theorem after_append_all (limit? : Option Nat) (before rest : List Step) :
    after limit? (before ++ rest) = rest.foldl Step.apply (after limit? before) :=
  List.foldl_append

/-- No id that is not handed out yet is on the machine of a session. -/
theorem machine_fixed (limit? : Option Nat) (steps : List Step) (changes : φ.ChangesFrom first)
    (le : (after limit? steps).nextId ≤ first) :
    (after limit? steps).machine.relabel φ = (after limit? steps).machine := by
  have onward (rest before : List Step) (fixed : (after limit? before).machine.relabel φ = (after limit? before).machine)
      (le : (after limit? (before ++ rest)).nextId ≤ first) :
      (after limit? (before ++ rest)).machine.relabel φ = (after limit? (before ++ rest)).machine := by
    induction rest generalizing before with
    | nil => rwa [List.append_nil]
    | cons step rest ih =>
      rw [List.append_cons] at le ⊢
      refine ih (before ++ [step]) ?_ le
      have later : (after limit? (before ++ [step])).nextId ≤ (after limit? (before ++ [step] ++ rest)).nextId := by
        rw [after_append_all limit? (before ++ [step]) rest]
        exact (idsRead_ascending _ rest).le
      have fresh := fresh_after limit? (before ++ [step])
      rw [after_append] at fresh later ⊢
      exact step_fixed fixed changes fresh (Nat.le_trans later le)
  exact onward steps [] (machine_start_relabel limit?) le

/-- Ids that are so many further on from a first one. -/
def Relabeling.shiftFrom (first count : Nat) : Relabeling :=
  ⟨fun id => if id < first then id else id + count, fun line => line, fun name => name⟩

theorem Relabeling.shiftFrom_changes (first count : Nat) : (shiftFrom first count).ChangesFrom first := by
  refine ⟨fun _ => rfl, fun _ => rfl, fun id less => if_pos less, fun id above => ?_⟩
  have moved : (shiftFrom first count).id id = id + count := if_neg (Nat.not_lt.mpr above)
  omega

/-- A session that has handed out more ids and done nothing else is an image of the one that has not. -/
theorem image_ahead (limit? : Option Nat) (steps : List Step) (count : Nat) :
    let s := after limit? steps
    Image (.shiftFrom s.nextId count) s { s with nextId := s.nextId + count } := by
  intro s
  have changes := Relabeling.shiftFrom_changes s.nextId count
  refine ⟨changes.names, Nat.le_add_right _ _, fun i => ?_, fun id less => ?_, ?_, ?_⟩
  · have above : ¬ s.nextId + i < s.nextId := by omega
    have moved : (Relabeling.shiftFrom s.nextId count).id (s.nextId + i) = s.nextId + i + count := if_neg above
    rw [moved]
    exact Nat.add_right_comm _ _ _
  · rw [changes.below id less]
    exact Nat.lt_of_lt_of_le less (Nat.le_add_right _ _)
  · exact matches_fixed changes (fresh_after limit? steps)
  · exact (machine_fixed limit? steps changes (Nat.le_refl _)).symm

/-! ### Steps that do not evaluate -/

/-- A step shows its text or finds an error in it. -/
def Session.Step.Idle (s : Session) : Step → Prop
  | .eval depth source => ∃ diagnostics, (s.eval depth source).1 = .rejected diagnostics
  | .dump _ => True

theorem outcomeOf_ne_rejected (r : EStateM.Result Stop Machine Unit) (diagnostics : List Diagnostic) :
    outcomeOf r ≠ .rejected diagnostics := by
  cases r with
  | ok _ m => exact Outcome.noConfusion
  | error stop m => cases stop <;> exact Outcome.noConfusion

theorem idle_apply {s : Session} {step : Step} (idle : step.Idle s) :
    step.apply s = { s with nextId := (parseSource s.nextId step.source).nextId } := by
  cases step with
  | dump source => exact dump_after s source
  | eval depth source =>
    obtain ⟨diagnostics, rejected⟩ := idle
    refine eval_rejected (fun accepted => ?_) depth
    rw [eval_outcome accepted] at rejected
    exact outcomeOf_ne_rejected _ _ rejected

/-- A step that does not evaluate prints nothing and leaves the machine and the distances as they were, and
without it all other steps of a session are answered as they are with it. -/
theorem idle_traceless (limit? : Option Nat) (before : List Step) (step : Step) (rest : List Step)
    (idle : step.Idle (after limit? before)) :
    let s := after limit? before
    (step.apply s).machine = s.machine ∧ (step.apply s).distances = s.distances ∧
    (Session.start limit?).answers (before ++ step :: rest) =
      (Session.start limit?).answers before ++ step.answer s :: s.answers rest ∧
    (Session.start limit?).answers (before ++ rest) = (Session.start limit?).answers before ++ s.answers rest := by
  intro s
  have applied : step.apply s = { s with nextId := (parseSource s.nextId step.source).nextId } := idle_apply idle
  refine ⟨by rw [applied], by rw [applied], ?_, answers_append _ before rest⟩
  have le := (source_ordered s.nextId step.source).le
  have image := image_ahead limit? before ((parseSource s.nextId step.source).nextId - s.nextId)
  have onward : s.nextId + ((parseSource s.nextId step.source).nextId - s.nextId) =
      (parseSource s.nextId step.source).nextId := by omega
  have same : (step.apply s).answers rest = s.answers rest := by
    rw [applied, ← onward]
    exact answers_image image (fun _ => rfl) rest
  rw [answers_append]
  change _ ++ step.answer s :: (step.apply s).answers rest = _
  rw [same]

theorem idle_traceless_rejected :
    let step := Step.eval 9 "{ a; return b; }"
    let s := after (some 4) [.eval 9 "fun f() { print g; }"]
    (step.apply s).machine = s.machine ∧
    (Session.start (some 4)).answers [.eval 9 "fun f() { print g; }", step, .eval 9 "var g; f();"] =
      (Session.start (some 4)).answers [.eval 9 "fun f() { print g; }"] ++
        step.answer s :: s.answers [.eval 9 "var g; f();"] := by
  intro step s
  have idle : step.Idle s := ⟨_, rfl⟩
  obtain ⟨machine, -, answers, -⟩ :=
    idle_traceless (some 4) [.eval 9 "fun f() { print g; }"] step [.eval 9 "var g; f();"] idle
  exact ⟨machine, answers⟩

end Lox
