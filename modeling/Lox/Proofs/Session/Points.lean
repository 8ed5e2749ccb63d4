import Mathlib.Data.List.Induction
import Lox.Session
import Lox.Proofs.Machine.ScopeSafety

/-!
The points of a session. A session goes from one step to the next; a text that is accepted runs on the
machine that the steps before have left. At every point of every run of a session the frames are in step
with the scopes, whatever ran before and however it ended.
-/

namespace Lox

/-! ### Steps -/

namespace Session

/-- What a session can be asked to do. -/
inductive Step
  | eval (depth : Nat) (source : String)
  | dump (source : String)

def Step.apply (s : Session) : Step → Session
  | .eval depth source => (s.eval depth source).2
  | .dump source => (s.dump source).2

/-- A session behind some steps. -/
def after (limit? : Option Nat) (steps : List Step) : Session :=
  steps.foldl Step.apply (.start limit?)

theorem after_append (limit? : Option Nat) (steps : List Step) (step : Step) :
    after limit? (steps ++ [step]) = step.apply (after limit? steps) := by
  rw [after, List.foldl_append]
  rfl

/-- The statements of a text. -/
def program (s : Session) (source : String) : List Stmt :=
  (parseSource s.nextId source).program

/-- The distances that are known when a text runs. -/
def known (s : Session) (source : String) : Distances :=
  s.distances.merge (resolve (s.program source)).distances

/-- Whether a text runs and its run comes by a point. -/
def Visits (s : Session) (depth : Nat) (source : String) (p : Point) : Prop :=
  Accepted s.nextId source ∧ ∀ stop,
    interpret (breakpoint (s.known source) p stop depth) (s.program source) s.machine = .error stop p.machine

theorem eval_accepted {s : Session} {source : String} (accepted : Accepted s.nextId source) (depth : Nat) :
    (s.eval depth source).2 = ⟨(parseSource s.nextId source).nextId, s.known source,
      lastMachine (interpret (evaluator (s.known source) depth) (s.program source) s.machine)⟩ := by
  unfold eval Accepted at *
  simp only [accepted]
  unfold known program
  split <;> simp [lastMachine, *]

theorem eval_rejected {s : Session} {source : String} (rejected : ¬ Accepted s.nextId source) (depth : Nat) :
    (s.eval depth source).2 = { s with nextId := (parseSource s.nextId source).nextId } := by
  unfold eval
  dsimp only
  split
  · next accepted => exact absurd accepted rejected
  · rfl

theorem dump_after (s : Session) (source : String) :
    (s.dump source).2 = { s with nextId := (parseSource s.nextId source).nextId } := by
  unfold dump
  dsimp only
  split <;> rfl

end Session

open Session

/-- Whether some step of a session comes by a point. -/
def Visited (limit? : Option Nat) (steps : List Step) (p : Point) : Prop :=
  ∃ before depth source, before ++ [.eval depth source] <+: steps ∧ (after limit? before).Visits depth source p

/-- Whether a program is that of a text that some step of a session runs. -/
def AcceptedIn (limit? : Option Nat) (steps : List Step) (program : List Stmt) : Prop :=
  ∃ before depth source, before ++ [.eval depth source] <+: steps ∧
    Accepted (after limit? before).nextId source ∧ program = (after limit? before).program source

theorem AcceptedIn.mono {limit? : Option Nat} {steps more : List Step} {program : List Stmt}
    (inside : AcceptedIn limit? steps program) (part : steps <+: more) : AcceptedIn limit? more program := by
  obtain ⟨before, depth, source, earlier, accepted, same⟩ := inside
  exact ⟨before, depth, source, earlier.trans part, accepted, same⟩

/-- The texts run up to a step are those run before it and, if it runs one, its own. -/
theorem AcceptedIn.cases {limit? : Option Nat} {steps : List Step} {step : Step} {program : List Stmt}
    (inside : AcceptedIn limit? (steps ++ [step]) program) : AcceptedIn limit? steps program ∨
    ∃ depth source, step = .eval depth source ∧ Accepted (after limit? steps).nextId source ∧
      program = (after limit? steps).program source := by
  obtain ⟨before, depth, source, earlier, accepted, same⟩ := inside
  rcases List.prefix_concat_iff.mp earlier with whole | earlier
  · obtain ⟨rfl, own⟩ := List.append_inj' whole rfl
    obtain rfl := List.cons.inj own |>.1
    exact Or.inr ⟨depth, source, rfl, accepted, same⟩
  · exact Or.inl ⟨before, depth, source, earlier, accepted, same⟩

/-! ### Closed heaps -/

namespace Session

variable {s : Session} {depth : Nat} {source : String}

theorem eval_presence (closed : s.machine.heap.Closed) (depth : Nat) (source : String) :
    (presenceContract (s.known source)).Kept depth (fun self => interpret self (s.program source)) s.machine
      fun _ _ => True :=
  presence_interpret (s.known source) (s.program source) depth s.machine closed fun _ _ => trivial

theorem eval_closed (closed : s.machine.heap.Closed) (depth : Nat) (source : String) :
    (s.eval depth source).2.machine.heap.Closed := by
  by_cases accepted : Accepted s.nextId source
  · rw [eval_accepted accepted]
    exact (eval_presence closed depth source).ends.holds
  · rw [eval_rejected accepted]
    exact closed

theorem visits_closed {p : Point} (closed : s.machine.heap.Closed) (visits : s.Visits depth source p) :
    p.machine.heap.Closed ∧ p.Given :=
  (eval_presence closed depth source).expects p visits.2

/-- No reference dangles, whatever steps a session has taken. -/
theorem after_closed (limit? : Option Nat) (steps : List Step) : (after limit? steps).machine.heap.Closed := by
  induction steps using List.reverseRecOn with
  | nil => exact Heap.closed_start
  | append_singleton steps step ih =>
    rw [after_append]
    cases step with
    | eval depth source => exact eval_closed ih depth source
    | dump source =>
      change ((after limit? steps).dump source).2.machine.heap.Closed
      rw [dump_after]
      exact ih

end Session

theorem visited_closed {limit? : Option Nat} {steps : List Step} {p : Point} (met : Visited limit? steps p) :
    p.machine.heap.Closed := by
  obtain ⟨before, depth, source, -, visits⟩ := met
  exact (visits_closed (after_closed limit? before) visits).1

/-! ### What holds between steps -/

/-- The accepted programs of a session are known to it, and its heap is well scoped. -/
structure Session.Sound (visited : Point → Prop) (accepted : List Stmt → Prop) (s : Session) : Prop where
  heap : WellScoped visited accepted s.machine.heap
  programs : ∀ program, accepted program → Lox.Sound s.distances program
  below : ∀ program, accepted program → ∀ id ∈ siteIds (Stmt.sitesAll program []), id < s.nextId
  fresh : ∀ id, s.nextId ≤ id → s.distances.get? id = none

section Wider

variable {visited : Point → Prop} {accepted more : List Stmt → Prop} (wide : ∀ program, accepted program → more program)
variable {h : Heap} {r : Ref .frame} {chain : List Place}
include wide

theorem Declared.wider {c : Ref .classObject} {scope : Ref .frame} {decl : Stmt}
    (declared : Declared visited accepted h chain c scope decl) : Declared visited more h chain c scope decl := by
  cases declared with
  | intro inside stands met read first made there super =>
    exact .intro (wide _ inside) stands met read first made there super

theorem Received.wider {decl : Stmt} {receiver : Ref .instance} {c : Ref .classObject} {method : Closure}
    (received : Received visited accepted h decl r receiver c method) :
    Received visited more h decl r receiver c method := by
  obtain ⟨receives, chain, declared⟩ := received
  exact ⟨receives, chain, declared.wider wide⟩

theorem Tracks.wider (tracks : Tracks visited accepted h r chain) : Tracks visited more h r chain := by
  induction chain generalizing r with
  | nil => exact tracks
  | cons p chain ih =>
    obtain ⟨made, seated, bound, around, parent, outside⟩ := tracks
    refine ⟨made, ?_, bound, around, parent, ih outside⟩
    obtain ⟨scope, names⟩ := p
    cases scope with
    | receiver decl =>
      obtain ⟨receiver, c, method, received⟩ := seated
      exact ⟨receiver, c, method, received.wider wide⟩
    | _ => exact seated

theorem WellScoped.wider (sound : WellScoped visited accepted h) : WellScoped visited more h := by
  refine ⟨sound.globals, fun r closure found => ?_, fun r made name method found has => ?_, sound.ordered,
    fun r name value found => ?_⟩
  · obtain ⟨⟨program, chain, inside, stands, tracks⟩, seat⟩ := sound.closures r closure found
    refine ⟨⟨program, chain, wide program inside, stands, fun arguments m met =>
      (tracks arguments m met).wider wide⟩, seat.imp_right ?_⟩
    rintro ⟨decl, receiver, c, method, received, same⟩
    exact ⟨decl, receiver, c, method, received.wider wide, same⟩
  · obtain ⟨own, chain, className, superclass?, methods, line, member, declared, tracks⟩ :=
      sound.classes r made name method found has
    exact ⟨own, chain, className, superclass?, methods, line, member, declared.wider wide, tracks.wider wide⟩
  · obtain ⟨this, super⟩ := sound.special r name value found
    refine ⟨fun same => ?_, super⟩
    obtain ⟨receiver, is, decl, c, method, received⟩ := this same
    exact ⟨receiver, is, decl, c, method, received.wider wide⟩

end Wider

theorem wellScoped_start (visited : Point → Prop) (accepted : List Stmt → Prop) :
    WellScoped visited accepted Heap.start := by
  have natives (name : String) : Heap.start.binding? Heap.globals name =
      Table.get? name [("len", .native .len), ("push", .native .push)] := rfl
  refine ⟨⟨rfl, ?_, ?_⟩, fun r closure found => ?_, fun r made name method found _ => ?_, fun c s link => ?_,
    fun r name value found => ?_⟩
  · rw [natives]
    rfl
  · rw [natives]
    rfl
  · simp [Heap.closure?, Heap.start] at found
  · simp [Heap.classObject?, Heap.start] at found
  · simp [Heap.Extends, Heap.classObject?, Heap.start] at link
  · obtain ⟨index⟩ := r
    cases index with
    | zero =>
      refine special_of_ne ⟨?_, ?_⟩ _ value
      · rintro rfl
        cases found
      · rintro rfl
        cases found
    | succ index => simp [Heap.binding?, Heap.frame?, Heap.start] at found

variable {visited : Point → Prop} {accepted : List Stmt → Prop} {s : Session} {source : String} {depth : Nat}

/-! ### One step -/

/-- Nothing runs. -/
theorem Session.Sound.skip (sound : s.Sound visited accepted) (source : String) :
    ({ s with nextId := (parseSource s.nextId source).nextId } : Session).Sound visited accepted := by
  have le := (source_ordered s.nextId source).le
  refine ⟨sound.heap, sound.programs, fun program inside id member => ?_, fun id above => ?_⟩
  · exact Nat.lt_of_lt_of_le (sound.below program inside id member) le
  · exact sound.fresh id (Nat.le_trans le above)

/-- The programs of a session and one that it is about to run. -/
def Session.Wider (accepted : List Stmt → Prop) (s : Session) (source : String) (program : List Stmt) : Prop :=
  accepted program ∨ program = s.program source

/-- Old programs keep their distances, for the ids of the new one are all above theirs. -/
theorem Session.Sound.known (sound : s.Sound visited accepted) (clean : Accepted s.nextId source) :
    ∀ program, s.Wider accepted source program → Lox.Sound (s.known source) program := by
  have ordered := source_ordered s.nextId source
  rintro program (before | rfl)
  · refine (sound.programs program before).congr fun id member => ?_
    have apart : id ∉ siteIds (Stmt.sitesAll (s.program source) []) := by
      intro own
      have below := sound.below program before id member
      have above := (ordered.within id own).1
      omega
    exact (accepted_merge clean s.distances id).trans (if_neg apart)
  · refine (accepted_sound clean).congr fun id member => ?_
    have fresh := sound.fresh id (ordered.within id member).1
    refine (accepted_merge clean s.distances id).trans ?_
    rw [if_pos member, fresh, Option.or_none]

/-- The run of an accepted text goes by what is expected. -/
theorem Session.Sound.kept (sound : s.Sound visited accepted) (clean : Accepted s.nextId source)
    (closed : ∀ p, visited p → p.machine.heap.Closed) (met : ∀ p, s.Visits depth source p → visited p) :
    (scopeContract visited (s.Wider accepted source) (s.known source)).Kept depth
      (fun self => interpret self (s.program source)) s.machine fun _ _ => True := by
  have safe : ScopeSafe visited (s.Wider accepted source) (s.known source) depth
      (fun self => interpret self (s.program source)) s.machine fun _ _ => True :=
    safe_interpret (sound.known clean) closed (Or.inr rfl) depth s.machine
  exact safe (sound.heap.wider fun _ => Or.inl) fun p passes => met p ⟨clean, passes⟩

theorem Session.Sound.eval (sound : s.Sound visited accepted) (clean : Accepted s.nextId source)
    (closed : ∀ p, visited p → p.machine.heap.Closed) (met : ∀ p, s.Visits depth source p → visited p) :
    (s.eval depth source).2.Sound visited (s.Wider accepted source) := by
  have ordered := source_ordered s.nextId source
  rw [eval_accepted clean]
  refine ⟨(sound.kept clean closed met).ends.holds, sound.known clean, ?_, fun id above => ?_⟩
  · rintro program (before | rfl) id member
    · exact Nat.lt_of_lt_of_le (sound.below program before id member) ordered.le
    · exact (ordered.within id member).2
  · have apart : id ∉ siteIds (Stmt.sitesAll (s.program source) []) := fun own => by
      have := (ordered.within id own).2
      exact absurd above (Nat.not_le.mpr this)
    refine (accepted_merge clean s.distances id).trans ((if_neg apart).trans ?_)
    exact sound.fresh id (Nat.le_trans ordered.le above)

/-! ### All steps -/

theorem sound_start (visited : Point → Prop) (limit? : Option Nat) :
    (after limit? []).Sound visited (AcceptedIn limit? []) := by
  have none {program : List Stmt} : ¬ AcceptedIn limit? [] program := by
    rintro ⟨before, depth, source, early, -⟩
    simp at early
  exact ⟨wellScoped_start _ _, fun _ inside => absurd inside none, fun _ inside => absurd inside none,
    fun _ _ => rfl⟩

theorem acceptedIn_skip {limit? : Option Nat} {steps : List Step} {step : Step}
    (skips : ∀ depth source, step = .eval depth source → ¬ Accepted (after limit? steps).nextId source) :
    AcceptedIn limit? (steps ++ [step]) = AcceptedIn limit? steps := by
  funext program
  refine propext ⟨fun inside => ?_, fun inside => inside.mono (List.prefix_append _ _)⟩
  rcases inside.cases with before | ⟨depth, source, same, clean, -⟩
  · exact before
  · exact absurd clean (skips depth source same)

theorem acceptedIn_eval {limit? : Option Nat} {steps : List Step} {depth : Nat} {source : String}
    (clean : Accepted (after limit? steps).nextId source) :
    AcceptedIn limit? (steps ++ [.eval depth source]) =
      (after limit? steps).Wider (AcceptedIn limit? steps) source := by
  funext program
  refine propext ⟨fun inside => ?_, fun inside => ?_⟩
  · rcases inside.cases with before | ⟨depth', source', same, -, own⟩
    · exact Or.inl before
    · obtain ⟨-, rfl⟩ := Step.eval.inj same
      exact Or.inr own
  · rcases inside with before | own
    · exact before.mono (List.prefix_append _ _)
    · exact ⟨steps, depth, source, List.prefix_refl _, clean, own⟩

section Steps

variable {limit? : Option Nat} {steps before : List Step}
variable (closed : ∀ p, visited p → p.machine.heap.Closed) (met : ∀ p, Visited limit? steps p → visited p)
include closed met

theorem sound_step {step : Step} (sound : (after limit? before).Sound visited (AcceptedIn limit? before))
    (part : before ++ [step] <+: steps) :
    (after limit? (before ++ [step])).Sound visited (AcceptedIn limit? (before ++ [step])) := by
  rw [after_append]
  cases step with
  | dump source =>
    rw [acceptedIn_skip (by simp)]
    change Session.Sound _ _ ((after limit? before).dump source).2
    rw [dump_after]
    exact sound.skip source
  | eval depth source =>
    -- A text that is not accepted takes ids but does not run.
    by_cases clean : Accepted (after limit? before).nextId source
    · rw [acceptedIn_eval clean]
      exact sound.eval clean closed fun p visits => met p ⟨before, depth, source, part, visits⟩
    · have skips (depth' : Nat) (source' : String) (same : Step.eval depth source = .eval depth' source') :
          ¬ Accepted (after limit? before).nextId source' := by
        obtain ⟨-, rfl⟩ := Step.eval.inj same
        exact clean
      rw [acceptedIn_skip skips]
      change Session.Sound _ _ ((after limit? before).eval depth source).2
      rw [eval_rejected clean]
      exact sound.skip source

/-- Whatever steps a session has taken, its heap is well scoped and its distances are those of its programs. -/
theorem session_sound (part : before <+: steps) :
    (after limit? before).Sound visited (AcceptedIn limit? before) := by
  induction before using List.reverseRecOn with
  | nil => exact sound_start visited limit?
  | append_singleton before step ih =>
    exact sound_step closed met (ih ((List.prefix_append before [step]).trans part)) part

end Steps

section Visits

variable {limit? : Option Nat} {before : List Step} {p : Point}

/-- The programs that a session has run when it comes by a point are known there. -/
theorem visits_known (visits : (after limit? before).Visits depth source p) :
    ∀ program, AcceptedIn limit? (before ++ [.eval depth source]) program →
      Lox.Sound ((after limit? before).known source) program := by
  rw [acceptedIn_eval visits.1]
  have sound : (after limit? before).Sound (Visited limit? (before ++ [.eval depth source])) (AcceptedIn limit? before) :=
    session_sound (fun _ => visited_closed) (fun _ => id) (List.prefix_append before _)
  exact sound.known visits.1

/-- The run of a text goes by what is expected, whichever points count besides those that the session comes by. -/
theorem session_kept (closed : ∀ p, visited p → p.machine.heap.Closed)
    (met : ∀ p, Visited limit? (before ++ [.eval depth source]) p → visited p)
    (clean : Accepted (after limit? before).nextId source) :
    (scopeContract visited (AcceptedIn limit? (before ++ [.eval depth source]))
      ((after limit? before).known source)).Kept depth
      (fun self => interpret self ((after limit? before).program source)) (after limit? before).machine
      fun _ _ => True := by
  have sound := session_sound closed met (List.prefix_append before [.eval depth source])
  rw [acceptedIn_eval clean]
  exact sound.kept clean closed fun q there => met q ⟨before, depth, source, List.prefix_refl _, there⟩

/-- At each point that a session comes by, the frame tracks the scopes around what is looked at. -/
theorem visits_expected (visits : (after limit? before).Visits depth source p) :
    let steps := before ++ [.eval depth source]
    WellScoped (Visited limit? steps) (AcceptedIn limit? steps) p.machine.heap ∧
      Expected (Visited limit? steps) (AcceptedIn limit? steps) p :=
  (session_kept (fun _ => visited_closed) (fun _ => id) visits.1).expects p visits.2

end Visits

end Lox
