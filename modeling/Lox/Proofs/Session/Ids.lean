import Lox.Proofs.Session.Points

/-!
Ids are for life. Each step of a session reads a text, whatever is wrong with it, and hands out ids from
the first one that the steps before have left. So the ids of all that a session reads ascend, the
distances that a step adds are new ones, and those that are known stay as they are.
-/

namespace Lox

open Session

/-! ### What a step reads and adds -/

def Session.Step.source : Step → String
  | .eval _ source => source
  | .dump source => source

/-- The ids of the references in the statements that a step reads, in the order of the text. -/
def Session.Step.ids (s : Session) (step : Step) : List Nat :=
  siteIds (Stmt.sitesAll (s.program step.source) [])

/-- The ids of all that some steps read, one step after the other. -/
def Session.idsRead (s : Session) : List Step → List Nat
  | [] => []
  | step :: rest => step.ids s ++ (step.apply s).idsRead rest

/-- The distances that a step adds: those of its text if that runs. -/
def Session.Step.added (s : Session) : Step → Distances
  | .eval _ source => if Accepted s.nextId source then (resolve (s.program source)).distances else []
  | .dump _ => []

theorem apply_nextId (s : Session) (step : Step) :
    (step.apply s).nextId = (parseSource s.nextId step.source).nextId := by
  cases step with
  | dump source => exact congrArg Session.nextId (dump_after s source)
  | eval depth source =>
    by_cases accepted : Accepted s.nextId source
    · exact congrArg Session.nextId (eval_accepted accepted depth)
    · exact congrArg Session.nextId (eval_rejected accepted depth)

theorem added_of_accepted {s : Session} {source : String} (accepted : Accepted s.nextId source) (depth : Nat) :
    (Step.eval depth source).added s = (resolve (s.program source)).distances :=
  if_pos accepted

theorem added_of_rejected {s : Session} {source : String} (rejected : ¬ Accepted s.nextId source) (depth : Nat) :
    (Step.eval depth source).added s = [] :=
  if_neg rejected

theorem apply_distances (s : Session) (step : Step) :
    (step.apply s).distances = s.distances.merge (step.added s) := by
  cases step with
  | dump source =>
    rw [Step.apply, dump_after]
    rfl
  | eval depth source =>
    rw [Step.apply]
    by_cases accepted : Accepted s.nextId source
    · rw [added_of_accepted accepted, eval_accepted accepted]
      rfl
    · rw [added_of_rejected accepted, eval_rejected accepted]
      rfl

/-- A step hands out the ids from the next one of the session before it to the next one behind it. -/
theorem step_ascending (s : Session) (step : Step) :
    Ascending s.nextId (step.apply s).nextId (step.ids s) := by
  rw [apply_nextId]
  exact source_ordered s.nextId step.source

theorem idsRead_ascending (s : Session) (steps : List Step) :
    Ascending s.nextId (steps.foldl Step.apply s).nextId (s.idsRead steps) := by
  induction steps generalizing s with
  | nil => exact .nil (Nat.le_refl _)
  | cons step steps ih => exact (step_ascending s step).append (ih (step.apply s))

/-! ### Distances that stay -/

/-- No id from the next one on has a distance. -/
def Session.Fresh (s : Session) : Prop :=
  ∀ id, s.nextId ≤ id → s.distances.get? id = none

theorem fresh_after (limit? : Option Nat) (steps : List Step) : (after limit? steps).Fresh :=
  (session_sound (fun _ => visited_closed) (fun _ => id) (List.prefix_refl steps)).fresh

/-- Only references of a text have distances. -/
theorem mem_ids_of_added {s : Session} {step : Step} {id : Nat} (added : (step.added s).has id) :
    id ∈ step.ids s := by
  cases step with
  | dump source => cases added
  | eval depth source =>
    by_cases accepted : Accepted s.nextId source
    · rw [added_of_accepted accepted] at added
      obtain ⟨strata, -, lexical⟩ := accepted_read accepted
      obtain ⟨-, clean⟩ := List.append_eq_nil_iff.mp accepted
      refine Decidable.byContradiction fun outside => ?_
      have absent : (resolve (s.program source)).distances.get? id = none :=
        resolve_others strata lexical clean outside
      rw [Table.has, absent] at added
      cases added
    · rw [added_of_rejected accepted] at added
      cases added

/-- What a step adds was not there before. -/
theorem added_new {s : Session} (fresh : s.Fresh) {step : Step} {id : Nat} (added : (step.added s).has id) :
    s.distances.get? id = none := by
  have inside := (step_ascending s step).within id (mem_ids_of_added added)
  exact fresh id inside.1

theorem get?_apply {s : Session} {step : Step} {id : Nat} (other : id ∉ step.ids s) :
    (step.apply s).distances.get? id = s.distances.get? id := by
  cases step with
  | dump source => rw [Step.apply, dump_after]
  | eval depth source =>
    rw [Step.apply]
    by_cases accepted : Accepted s.nextId source
    · rw [eval_accepted accepted]
      exact (accepted_merge accepted s.distances id).trans (if_neg other)
    · rw [eval_rejected accepted]

/-- What is known is below the ids that a step hands out. -/
theorem get?_of_known {s : Session} (fresh : s.Fresh) (step : Step) {id : Nat} (known : s.distances.has id) :
    (step.apply s).distances.get? id = s.distances.get? id := by
  refine get?_apply fun member => ?_
  have inside := (step_ascending s step).within id member
  rw [Table.has, fresh id inside.1] at known
  cases known

/-- What is known once stays known, whatever a session goes on to do. -/
theorem get?_after (limit? : Option Nat) (before rest : List Step) {id : Nat}
    (known : (after limit? before).distances.has id) :
    (after limit? (before ++ rest)).distances.get? id = (after limit? before).distances.get? id := by
  induction rest generalizing before with
  | nil => rw [List.append_nil]
  | cons step rest ih =>
    have kept : (after limit? (before ++ [step])).distances.get? id = (after limit? before).distances.get? id := by
      rw [after_append]
      exact get?_of_known (fresh_after limit? before) step known
    have still : (after limit? (before ++ [step])).distances.has id := by
      rw [Table.has, kept]
      exact known
    rw [List.append_cons, ih (before ++ [step]) still, kept]

/-- In all that a session reads no id comes twice: those of a text ascend within the ids that its step hands
out, and those of later texts are above them. A step adds distances for new ids only, and they stay. -/
theorem ids_unique (limit? : Option Nat) (before : List Step) (step : Step) (rest : List Step) :
    let s := after limit? before
    let t := after limit? (before ++ [step])
    Ascending s.nextId t.nextId (step.ids s) ∧
    ((Session.start limit?).idsRead (before ++ step :: rest)).Pairwise (· < ·) ∧
    t.distances = s.distances.merge (step.added s) ∧
    (∀ id, (step.added s).has id → id ∈ step.ids s ∧ s.distances.get? id = none) ∧
    ∀ id, t.distances.has id →
      (after limit? (before ++ step :: rest)).distances.get? id = t.distances.get? id := by
  intro s t
  have applied : t = step.apply s := after_append limit? before step
  refine ⟨?_, (idsRead_ascending _ _).ordered, ?_, fun id added => ⟨mem_ids_of_added added, ?_⟩, ?_⟩
  · rw [applied]
    exact step_ascending s step
  · rw [applied]
    exact apply_distances s step
  · exact added_new (fresh_after limit? before) added
  · intro id known
    rw [List.append_cons]
    exact get?_after limit? (before ++ [step]) rest known

theorem ids_unique_shadowed :
    let step := Step.eval 3 "{ var a; a; { var a; a; } }"
    let s := after none [.dump "a = 1 = b; super.x"]
    step.ids s = [3, 4] ∧ step.added s = [(3, 0), (4, 0)] ∧ s.distances.get? 4 = none ∧
    (after none [.dump "a = 1 = b; super.x", step, .eval 3 "var a; a;"]).distances.get? 4 = some 0 := by
  intro step s
  have ids : step.ids s = [3, 4] := by decide +kernel
  have added : step.added s = [(3, 0), (4, 0)] := by decide +kernel
  obtain ⟨-, -, merged, new, stays⟩ :=
    ids_unique none [.dump "a = 1 = b; super.x"] step [.eval 3 "var a; a;"]
  have four : (step.added s).has 4 := by rw [added]; decide
  have known : (after none [.dump "a = 1 = b; super.x", step]).distances.get? 4 = some 0 := by
    rw [show after none [.dump "a = 1 = b; super.x", step] = step.apply s from rfl, apply_distances, added]
    rfl
  refine ⟨ids, added, (new 4 four).2, (stays 4 ?_).trans known⟩
  rw [Table.has]
  exact congrArg Option.isSome known

end Lox
