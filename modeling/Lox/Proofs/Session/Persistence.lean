import Lox.Proofs.Session.Points

/-!
What a session has made lasts. Whatever it comes by is done to a machine that has come out of the one before,
however it ends, and of any two machines of a session one has come out of the other.
-/

namespace Lox

open Contract Session

variable {limit? : Option Nat} {steps before more : List Step} {depth : Nat} {source : String} {p q : Point}

/-! ### What is done at a point -/

/-- The machine on which the task of a point ends, done to some depth. -/
def Point.ending (distances : Distances) (n : Nat) : Point → Machine
  | ⟨.expr frame e, m⟩ => lastMachine ((evaluator distances n).expr frame e m)
  | ⟨.stmt frame s, m⟩ => lastMachine ((evaluator distances n).stmt frame s m)
  | ⟨.invoke closure arguments, m⟩ => lastMachine ((evaluator distances n).invoke closure arguments m)

/-- A machine from which anything may be run: no reference dangles, and all functions are declared in accepted
programs. Every point with a closed heap counts, so that a task may be done to any depth. -/
structure Settled (accepted : List Stmt → Prop) (m : Machine) : Prop where
  closed : m.heap.Closed
  sound : WellScoped (fun q => q.machine.heap.Closed) accepted m.heap

section Settled

variable {accepted : List Stmt → Prop} {distances : Distances} {n : Nat} {m m' : Machine} {α : Type} {a : α}
  {x : Evaluator → Run α} {post post' : α → Machine → Prop}

/-- Of a run from a settled machine both contracts hold. -/
theorem Settled.kept (settled : Settled accepted m) (present : PresenceSafe distances n x m post)
    (safe : ScopeSafe (fun q => q.machine.heap.Closed) accepted distances n x m post') :
    (presenceContract distances).Kept n x m post ∧
      (scopeContract (fun q => q.machine.heap.Closed) accepted distances).Kept n x m post' := by
  have kept := present settled.closed fun _ _ => trivial
  exact ⟨kept, safe settled.sound fun q passes => (kept.expects q passes).1⟩

/-- A run of which both contracts hold ends on a machine that has come out of the first one. -/
theorem grows_of_safe (closed : m.heap.Closed) (sound : WellScoped (fun q => q.machine.heap.Closed) accepted m.heap)
    (present : PresenceSafe distances n x m post)
    (safe : ScopeSafe (fun q => q.machine.heap.Closed) accepted distances n x m post') :
    m.Grows (lastMachine (x (evaluator distances n) m)) :=
  (Settled.kept ⟨closed, sound⟩ present safe).2.ends.grows

/-- The machine on which it ends is settled again. -/
theorem Settled.onward (settled : Settled accepted m) (present : PresenceSafe distances n x m post)
    (safe : ScopeSafe (fun q => q.machine.heap.Closed) accepted distances n x m post')
    (done : x (evaluator distances n) m = .ok a m') :
    Settled accepted m' ∧ m.heap.Retains m'.heap ∧ m.Grows m' ∧ post a m' := by
  obtain ⟨keptPresent, kept⟩ := settled.kept present safe
  have ends := keptPresent.ends
  have ends' := kept.ends
  rw [show x (evaluator (presenceContract distances).distances n) m = .ok a m' from done] at ends
  rw [show x (evaluator (scopeContract _ accepted distances).distances n) m = .ok a m' from done] at ends'
  exact ⟨⟨ends.1, ends'.1⟩, ends.2.1, ends'.2.1, ends.2.2⟩

theorem settled_scopes (known : ∀ program, accepted program → Sound distances program) (n : Nat) :
    KeepsScopes (fun q => q.machine.heap.Closed) accepted distances n :=
  keeps_scopes known (fun _ closed => closed) n

end Settled

/-- Wherever a session comes by, the machine is settled, and what is looked at stands where its frame is. -/
theorem visits_settled (visits : (after limit? before).Visits depth source p) :
    Settled (AcceptedIn limit? (before ++ [.eval depth source])) p.machine ∧ p.Given ∧
      Expected (fun q => q.machine.heap.Closed) (AcceptedIn limit? (before ++ [.eval depth source])) p := by
  obtain ⟨closed, given⟩ := visits_closed (after_closed limit? before) visits
  have counts (q : Point) (counts : q.machine.heap.Closed) : q.machine.heap.Closed := counts
  obtain ⟨sound, expected⟩ := (session_kept counts (fun _ => visited_closed) visits.1).expects p visits.2
  exact ⟨⟨closed, sound⟩, given, expected⟩

/-- Wherever a session comes by, all that is there stays when the task there is done, to whatever depth and
however it ends: frames keep their places and their names bound, and `this` and `super` what they are bound to;
instances keep their classes and fields, arrays their lengths, classes and functions all; and what was printed
comes first of what is printed in the end. -/
theorem machine_grows (visits : (after limit? before).Visits depth source p) (n : Nat) :
    p.machine.Grows (p.ending ((after limit? before).known source) n) := by
  have known := visits_known visits
  obtain ⟨closed, given⟩ := visits_closed (after_closed limit? before) visits
  -- Every point with a closed heap counts, so that the task may be done to any depth from here.
  have counts (q : Point) (counts : q.machine.heap.Closed) : q.machine.heap.Closed := counts
  obtain ⟨sound, expected⟩ := (session_kept counts (fun _ => visited_closed) visits.1).expects p visits.2
  obtain ⟨task, m⟩ := p
  cases task with
  | expr frame e =>
    obtain ⟨chain, pending?, refersAt⟩ := expected
    exact grows_of_safe closed sound (keeps_presence _ n).expr ((keeps_scopes known counts n).expr refersAt)
  | stmt frame s =>
    obtain ⟨chain, inLoop, inFunction, standsAt⟩ := expected
    exact grows_of_safe closed sound (keeps_presence _ n).stmt ((keeps_scopes known counts n).stmt standsAt)
  | invoke closure arguments =>
    obtain ⟨arity, chain, standsAt⟩ := expected
    cases n with
    | zero => exact .refl m
    | succ n =>
      exact grows_of_safe closed sound (presence_invokeClosure closure given)
        (safe_invokeClosure (keeps_scopes known counts n) known arity standsAt closed)

theorem machine_grows_method :
    let source := "{ class A { m() { this.f = nil; } } A().m(); print nil; }"
    ∃ s, (after none []).program source = [s] ∧
      (after none []).Visits 9 source ⟨.stmt Heap.globals s, .start none⟩ ∧
      Machine.Grows (.start none)
        (Point.ending ((after none []).known source) 9 ⟨.stmt Heap.globals s, .start none⟩) := by
  intro source
  have one : ((after none []).program source).length = 1 := by decide +kernel
  obtain ⟨s, program⟩ := List.length_eq_one_iff.mp one
  have visits : (after none []).Visits 9 source ⟨.stmt Heap.globals s, .start none⟩ := by
    refine ⟨by decide +kernel, fun stop => ?_⟩
    rw [program]
    exact Run.bind_of_error (Point.guard_here _ _ stop _) _
  exact ⟨s, program, visits, machine_grows visits 9⟩

/-! ### Machines of a session -/

/-- The machines that a session has between two steps and at the points of its runs. -/
inductive Reached (limit? : Option Nat) (steps : List Step) : Machine → Prop
  | between {before : List Step} : before <+: steps → Reached limit? steps (after limit? before).machine
  | point {p : Point} : Visited limit? steps p → Reached limit? steps p.machine

theorem eval_kept (clean : Accepted (after limit? before).nextId source) (depth : Nat) :
    (scopeContract (Visited limit? (before ++ [.eval depth source]))
      (AcceptedIn limit? (before ++ [.eval depth source])) ((after limit? before).known source)).Kept depth
      (fun self => interpret self ((after limit? before).program source)) (after limit? before).machine
      fun _ _ => True :=
  session_kept (fun _ => visited_closed) (fun _ => id) clean

theorem eval_machine (clean : Accepted (after limit? before).nextId source) (depth : Nat) :
    (after limit? (before ++ [.eval depth source])).machine =
      lastMachine (interpret (evaluator ((after limit? before).known source) depth)
        ((after limit? before).program source) (after limit? before).machine) := by
  rw [after_append]
  change ((after limit? before).eval depth source).2.machine = _
  rw [eval_accepted clean]

theorem step_grows (limit? : Option Nat) (before : List Step) (step : Step) :
    (after limit? before).machine.Grows (after limit? (before ++ [step])).machine := by
  cases step with
  | dump source =>
    rw [after_append]
    change (after limit? before).machine.Grows ((after limit? before).dump source).2.machine
    rw [dump_after]
    exact .refl _
  | eval depth source =>
    by_cases clean : Accepted (after limit? before).nextId source
    · rw [eval_machine clean]
      exact (eval_kept clean depth).ends.grows
    · rw [after_append]
      change (after limit? before).machine.Grows ((after limit? before).eval depth source).2.machine
      rw [eval_rejected clean]
      exact .refl _

theorem after_grows (limit? : Option Nat) {before more : List Step} (part : before <+: more) :
    (after limit? before).machine.Grows (after limit? more).machine := by
  obtain ⟨rest, rfl⟩ := part
  induction rest using List.reverseRecOn with
  | nil =>
    rw [List.append_nil]
    exact .refl _
  | append_singleton rest step ih =>
    rw [← List.append_assoc]
    exact ih.trans (step_grows limit? _ step)

/-- A run goes from the machine before its step by way of its points to the machine behind it. -/
theorem visits_onward (visits : (after limit? before).Visits depth source p) :
    (after limit? before).machine.Grows p.machine ∧
      p.machine.Grows (after limit? (before ++ [.eval depth source])).machine := by
  rw [eval_machine visits.1]
  exact (eval_kept visits.1 depth).onward p visits.2

theorem visits_ordered (visits : (after limit? before).Visits depth source p)
    (visits' : (after limit? before).Visits depth source q) :
    p.machine.Grows q.machine ∨ q.machine.Grows p.machine :=
  (eval_kept visits.1 depth).ordered p q visits.2 visits'.2

theorem between_point (part : before <+: steps) (met : Visited limit? steps p) :
    (after limit? before).machine.Grows p.machine ∨ p.machine.Grows (after limit? before).machine := by
  obtain ⟨earlier, depth, source, part', visits⟩ := met
  obtain ⟨first, last⟩ := visits_onward visits
  rcases List.prefix_or_prefix_of_prefix part part' with before | behind
  · rcases List.prefix_concat_iff.mp before with rfl | before
    · exact Or.inr last
    · exact Or.inl ((after_grows limit? before).trans first)
  · exact Or.inr (last.trans (after_grows limit? behind))

theorem point_point {before' : List Step} {depth' : Nat} {source' : String}
    (visits : (after limit? before).Visits depth source p) (visits' : (after limit? before').Visits depth' source' q)
    (part : before ++ [.eval depth source] <+: before' ++ [.eval depth' source']) :
    p.machine.Grows q.machine ∨ q.machine.Grows p.machine := by
  rcases List.prefix_concat_iff.mp part with same | earlier
  · obtain ⟨rfl, step⟩ := List.append_inj' same rfl
    obtain ⟨rfl, rfl⟩ := Step.eval.inj (List.cons.inj step).1
    exact visits_ordered visits visits'
  · exact Or.inl ((visits_onward visits).2.trans ((after_grows limit? earlier).trans (visits_onward visits').1))

/-- Of any two machines of a session one has come out of the other. -/
theorem Reached.ordered {m m' : Machine} (reached : Reached limit? steps m) (reached' : Reached limit? steps m') :
    m.Grows m' ∨ m'.Grows m := by
  cases reached with
  | between part =>
    cases reached' with
    | between part' =>
      exact (List.prefix_or_prefix_of_prefix part part').imp (after_grows limit?) (after_grows limit?)
    | point met' => exact between_point part met'
  | point met =>
    cases reached' with
    | between part' => exact (between_point part' met).symm
    | point met' =>
      obtain ⟨before, depth, source, part, visits⟩ := met
      obtain ⟨before', depth', source', part', visits'⟩ := met'
      rcases List.prefix_or_prefix_of_prefix part part' with earlier | later
      · exact point_point visits visits' earlier
      · exact (point_point visits' visits later).symm

end Lox
