import Lox.Proofs.Machine.Limits
import Lox.Proofs.Session.Images

/-!
Sessions with limited output. As long as what a session prints fits, it goes through the same steps as without
a limit. A text that prints more runs as it does without a limit, up to the print statement whose line goes
beyond; that statement fails, and the bytes of its line that fit are written.
-/

namespace Lox

open Session

variable {N : Nat} {s : Session} {source : String}

/-- The session with its output limited. -/
def Session.limit (N : Nat) (s : Session) : Session :=
  { s with machine := s.machine.limit N }

theorem outcomeOf_limitEnd (r : EStateM.Result Stop Machine Unit) : outcomeOf (limitEnd N r) = outcomeOf r := by
  cases r with
  | ok _ _ => rfl
  | error e _ => cases e <;> rfl

theorem lastMachine_limitEnd {α : Type} (r : EStateM.Result Stop Machine α) :
    lastMachine (limitEnd N r) = (lastMachine r).limit N := by
  cases r <;> rfl

theorem Session.limit_runs (accepted : Accepted s.nextId source) (depth : Nat) {r : EStateM.Result Stop Machine Unit}
    (ends : interpret (evaluator (s.known source) depth) (s.program source) (s.machine.limit N) = r) :
    (s.limit N).eval depth source =
      (outcomeOf r, ⟨(parseSource s.nextId source).nextId, s.known source, lastMachine r⟩) := by
  have accepted' : Accepted (s.limit N).nextId source := accepted
  have runs := eval_runs accepted' depth
  rw [← ends]
  exact runs

/-- The print statement at which a text prints more than the limit. -/
structure Session.CutAt (N depth : Nat) (s : Session) (source : String) (p : Point) (line : Nat)
    (texts : List String) (before : Machine) : Prop where
  /-- Without the limit and under it the text comes by the statement, on the same heap. -/
  visits : s.Visits depth source p ∧ (s.limit N).Visits depth source (p.limit N)
  overflows : p.Overflows (s.known source) N line texts before
  written : ∃ more, (s.eval depth source).2.machine.output.written = before.output.written ++ lineOf texts ++ more

section Eval

variable (unlimited : s.machine.output.limit? = none) (room : s.printed ≤ N)
include unlimited room

theorem Session.limited (depth : Nat) (accepted : Accepted s.nextId source) :
    Limited (s.known source) N
      (fun p => s.Visits depth source p ∧ (s.limit N).Visits depth source (p.limit N))
      (interpret (evaluator (s.known source) depth) (s.program source) s.machine)
      (interpret (evaluator (s.known source) depth) (s.program source) (s.machine.limit N)) := by
  refine (limited_interpret (s.known source) depth (s.program source) unlimited room).imp fun p passes => ?_
  exact ⟨⟨accepted, fun stop => (passes stop).1⟩, accepted, fun stop => (passes stop).2⟩

/-- A text whose output fits runs as it does without a limit. -/
theorem Session.limit_eval (depth : Nat) (fits : (s.eval depth source).2.printed ≤ N) :
    (s.limit N).eval depth source = ((s.eval depth source).1, (s.eval depth source).2.limit N) := by
  by_cases accepted : Accepted s.nextId source
  · rw [eval_runs accepted] at fits
    have same := (Session.limited unlimited room depth accepted).fits fits
    rw [eval_runs accepted, limit_runs accepted depth same, outcomeOf_limitEnd, lastMachine_limitEnd]
    rfl
  · have rejected' : ¬ Accepted (s.limit N).nextId source := accepted
    rw [eval_rejects accepted, eval_rejects rejected']
    rfl

/-- A text whose output does not fit is cut short. -/
theorem Session.cut_eval (depth : Nat) (exceeds : N < (s.eval depth source).2.printed) :
    ((s.limit N).eval depth source).2.machine.output.written =
        (s.eval depth source).2.machine.output.written.extract 0 N ∧
      ∃ p line texts before, s.CutAt N depth source p line texts before ∧
        ((s.limit N).eval depth source).1 = .faulted ⟨line, .outputFull⟩ ∧
        ((s.limit N).eval depth source).2.machine.heap = before.heap := by
  by_cases accepted : Accepted s.nextId source
  · rw [eval_runs accepted] at exceeds
    obtain ⟨p, line, texts, before, visits, short⟩ := (Session.limited unlimited room depth accepted).full exceeds
    obtain ⟨more, written⟩ := short.written
    have whole : (s.eval depth source).2.machine.output.written = before.output.written ++ lineOf texts ++ more := by
      rw [eval_runs accepted]
      exact written
    rw [limit_runs accepted depth short.ends, whole, extract_beyond (Nat.le_of_lt short.overflows.beyond)]
    exact ⟨rfl, p, line, texts, before, ⟨visits, short.overflows, more, whole⟩, rfl, rfl⟩
  · rw [eval_rejects accepted] at exceeds
    exact absurd room (Nat.not_le_of_lt exceeds)

end Eval

/-! ### Steps in a row -/

theorem Session.step_writes (s : Session) (step : Step) : s.machine.Writes (step.apply s).machine := by
  cases step with
  | dump source =>
    change s.machine.Writes (s.dump source).2.machine
    rw [dump_after]
    exact .of_output rfl
  | eval depth source =>
    change s.machine.Writes (s.eval depth source).2.machine
    by_cases accepted : Accepted s.nextId source
    · rw [eval_accepted accepted]
      exact interpret_writes _ _ _ _
    · rw [eval_rejected accepted]
      exact .of_output rfl

theorem after_unlimited (steps : List Step) : (after none steps).machine.output.limit? = none := by
  induction steps using List.reverseRecOn with
  | nil => rfl
  | append_singleton steps step ih =>
    rw [after_append]
    exact (step_writes _ step).limit.trans ih

theorem Session.limit_step (unlimited : s.machine.output.limit? = none) (step : Step)
    (fits : (step.apply s).printed ≤ N) : step.apply (s.limit N) = (step.apply s).limit N := by
  cases step with
  | dump source =>
    change ((s.limit N).dump source).2 = (s.dump source).2.limit N
    rw [dump_after, dump_after]
    rfl
  | eval depth source =>
    have room : s.printed ≤ N := Nat.le_trans (step_writes s (.eval depth source)).size_le fits
    exact congrArg Prod.snd (limit_eval unlimited room depth fits)

/-- As long as all that is printed fits, a limit makes no difference. -/
theorem after_limit {steps : List Step} (fits : (after none steps).printed ≤ N) :
    after (some N) steps = (after none steps).limit N := by
  induction steps using List.reverseRecOn with
  | nil => rfl
  | append_singleton steps step ih =>
    rw [after_append] at fits ⊢
    rw [after_append, ih (Nat.le_trans (step_writes _ step).size_le fits)]
    exact limit_step (after_unlimited steps) step fits

/-- What a text prints under a limit is the beginning of what it prints without one. If all of it fits, the text
runs as it does without the limit. Otherwise it runs alike up to the print statement whose line goes beyond the
limit, and fails there. -/
theorem limited_output {steps : List Step} (room : (after none steps).printed ≤ N) (depth : Nat) (source : String) :
    let whole := (after none steps).eval depth source
    let cut := (after (some N) steps).eval depth source
    (whole.2.printed ≤ N → cut = (whole.1, whole.2.limit N)) ∧
    (N < whole.2.printed → cut.2.machine.output.written = whole.2.machine.output.written.extract 0 N ∧
      ∃ p line texts before, (after none steps).CutAt N depth source p line texts before ∧
        cut.1 = .faulted ⟨line, .outputFull⟩ ∧ cut.2.machine.heap = before.heap) := by
  intro whole cut
  have limits : cut = ((after none steps).limit N).eval depth source := by
    change (after (some N) steps).eval depth source = _
    rw [after_limit room]
  rw [limits]
  exact ⟨limit_eval (after_unlimited steps) room depth, cut_eval (after_unlimited steps) room depth⟩

/-- The second line is cut short, behind a call that printed and left its heap. -/
theorem limited_output_line :
    let steps := [Step.eval 9 "fun f(a) { print a; return a; }"]
    let source := "print \"a\";\nprint f(\"bc\"), \"de\";\nprint \"f\";"
    let cut := (after (some 7) steps).eval 9 source
    (after none steps).printed ≤ 7 ∧ 7 < ((after none steps).eval 9 source).2.printed ∧
      cut.2.machine.output.written = "a\nbc\nbc".toUTF8 ∧
      ∃ p texts before, (after none steps).CutAt 7 9 source p 2 texts before ∧
        cut.1 = .faulted ⟨2, .outputFull⟩ ∧ cut.2.machine.heap = before.heap := by
  intro steps source cut
  have room : (after none steps).printed ≤ 7 := by decide +kernel
  have exceeds : 7 < ((after none steps).eval 9 source).2.printed := by decide +kernel
  have outcome : cut.1 = .faulted ⟨2, .outputFull⟩ := by decide +kernel
  obtain ⟨written, p, line, texts, before, cutAt, ends, heap⟩ := (limited_output room 9 source).2 exceeds
  obtain rfl : line = 2 := by
    have same := outcome.symm.trans ends
    cases same
    rfl
  refine ⟨room, exceeds, written.trans ?_, p, texts, before, cutAt, ends, heap⟩
  decide +kernel

end Lox
