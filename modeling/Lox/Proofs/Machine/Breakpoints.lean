import Lox.Proofs.Machine.Growth

/-!
The points of a run. A point is a task that the evaluator is about to do on a machine. A run passes a
point if a breakpoint there stops it, whatever the breakpoint stops it with. A contract says what is
expected at the points that are visited, what holds of each machine on the way and how machines change
from one point to the next; the rules below put runs together that keep one.
-/

namespace Lox

/-! ### Runs one after the other -/

namespace Run

variable {α β : Type} {m m' : Machine}

theorem bind_of_ok {x : Run α} {a : α} (done : x m = .ok a m') (f : α → Run β) : (x >>= f) m = f a m' := by
  change EStateM.bind x f m = f a m'
  rw [EStateM.bind, done]

theorem bind_of_error {x : Run α} {e : Stop} (failed : x m = .error e m') (f : α → Run β) :
    (x >>= f) m = .error e m' := by
  change EStateM.bind x f m = .error e m'
  rw [EStateM.bind, failed]

theorem read_bind (g : Heap → α) (f : α → Run β) (m : Machine) : (read g >>= f) m = f (g m.heap) m :=
  rfl

end Run

/-! ### Points -/

/-- What an evaluator can be asked to do. -/
inductive Task
  | expr (frame : Ref .frame) (e : Expr)
  | stmt (frame : Ref .frame) (s : Stmt)
  | invoke (closure : Closure) (arguments : List Value)

/-- A task that is about to be done on a machine. -/
structure Point where
  task : Task
  machine : Machine

open Classical in
/-- Does a task, but stops if that is at a given point. -/
noncomputable def Point.guard {α : Type} (p : Point) (stop : Stop) (task : Task) (run : Run α) : Run α :=
  fun m => if p = ⟨task, m⟩ then .error stop m else run m

theorem Point.guard_here {α : Type} (task : Task) (m : Machine) (stop : Stop) (run : Run α) :
    Point.guard ⟨task, m⟩ stop task run m = .error stop m :=
  if_pos rfl

theorem Point.guard_other {α : Type} {p : Point} {task : Task} (other : p.task ≠ task) (stop : Stop)
    (run : Run α) (m : Machine) : p.guard stop task run m = run m :=
  if_neg fun same => other (congrArg Point.task same)

/-- The evaluator that stops at a point. -/
noncomputable def breakpoint (distances : Distances) (p : Point) (stop : Stop) : Nat → Evaluator
  | 0 => .starved
  | n + 1 =>
    ⟨fun frame e => p.guard stop (.expr frame e) ((breakpoint distances p stop n).evalExpr distances frame e),
     fun frame s => p.guard stop (.stmt frame s) ((breakpoint distances p stop n).execStmt distances n frame s),
     fun closure arguments =>
      p.guard stop (.invoke closure arguments) ((breakpoint distances p stop n).invokeClosure closure arguments)⟩

/-- What is expected of runs. -/
structure Contract where
  distances : Distances
  /-- The points of runs that count. -/
  visited : Point → Prop
  /-- What is expected at each of them. -/
  expects : Point → Prop
  holds : Machine → Prop
  /-- How a machine may change. -/
  grows : Machine → Machine → Prop
  refl : ∀ m, grows m m
  trans : ∀ {m₁ m₂ m₃}, grows m₁ m₂ → grows m₂ m₃ → grows m₁ m₃

namespace Contract

variable (c : Contract) {α β : Type} {n : Nat} {m : Machine}

/-- Whether a run on a machine comes by a point. -/
def Passes (n : Nat) (x : Evaluator → Run α) (m : Machine) (p : Point) : Prop :=
  ∀ stop, x (breakpoint c.distances p stop n) m = .error stop p.machine

/-- Whether a breakpoint makes no difference to a run on a machine. -/
def Misses (n : Nat) (x : Evaluator → Run α) (m : Machine) (p : Point) : Prop :=
  ∀ stop, x (breakpoint c.distances p stop n) m = x (evaluator c.distances n) m

/-- How a run that started on a machine may end. -/
def Ends (m : Machine) (post : α → Machine → Prop) : EStateM.Result Stop Machine α → Prop
  | .ok a m' => c.holds m' ∧ c.grows m m' ∧ post a m'
  | .error _ m' => c.holds m' ∧ c.grows m m'

/-- What is shown of a run on a machine, once the points that it passes count. -/
structure Kept (n : Nat) (x : Evaluator → Run α) (m : Machine) (post : α → Machine → Prop) : Prop where
  passes : ∀ p, c.Passes n x m p ∨ c.Misses n x m p
  expects : ∀ p, c.Passes n x m p → c.holds p.machine ∧ c.expects p
  ends : c.Ends m post (x (evaluator c.distances n) m)
  /-- The run comes by each of them on its way to the end. -/
  onward : ∀ p, c.Passes n x m p →
    c.grows m p.machine ∧ c.grows p.machine (lastMachine (x (evaluator c.distances n) m))
  /-- Of any two of them one comes behind the other. -/
  ordered : ∀ p q, c.Passes n x m p → c.Passes n x m q →
    c.grows p.machine q.machine ∨ c.grows q.machine p.machine

/-- A run on a machine keeps to the contract. -/
def Safe (n : Nat) (x : Evaluator → Run α) (m : Machine) (post : α → Machine → Prop) : Prop :=
  c.holds m → (∀ p, c.Passes n x m p → c.visited p) → c.Kept n x m post

variable {c}

/-- No run stops in two ways at once. -/
theorem not_passes_same {r : EStateM.Result Stop Machine α} {m : Machine} : ¬ ∀ stop, r = .error stop m := by
  intro all
  have starved := (all .starved).symm.trans (all (.fault ⟨0, .notCallable⟩))
  cases starved

theorem Passes.not_misses {x : Evaluator → Run α} {p : Point} (passes : c.Passes n x m p) :
    ¬ c.Misses n x m p :=
  fun misses => not_passes_same fun stop => (misses stop).symm.trans (passes stop)

/-- What the first of two runs comes by, both come by. -/
theorem Passes.first {x : Evaluator → Run α} {f : Evaluator → α → Run β} {p : Point} (passes : c.Passes n x m p) :
    c.Passes n (fun self => x self >>= f self) m p :=
  fun stop => Run.bind_of_error (passes stop) _

/-- What the second one comes by, both come by, unless the first one has come by it before. -/
theorem Passes.second {x : Evaluator → Run α} {f : Evaluator → α → Run β} {p : Point} {a : α} {m' : Machine}
    (either : c.Passes n x m p ∨ c.Misses n x m p) (result : x (evaluator c.distances n) m = .ok a m')
    (passes : c.Passes n (fun self => f self a) m' p) : c.Passes n (fun self => x self >>= f self) m p := by
  rcases either with early | missed
  · exact early.first
  · exact fun stop => (Run.bind_of_ok ((missed stop).trans result) _).trans (passes stop)

section Enter

variable {task : Task} {x body : Evaluator → Run α}
  (guarded : ∀ p stop, x (breakpoint c.distances p stop (n + 1)) =
    p.guard stop task (body (breakpoint c.distances p stop n)))
include guarded

theorem passes_here (m : Machine) : c.Passes (n + 1) x m ⟨task, m⟩ := by
  intro stop
  rw [guarded]
  exact Point.guard_here task m stop _

/-- What the body of a task comes by, the task comes by. -/
theorem passes_inside {p : Point} (passes : c.Passes n body m p) : c.Passes (n + 1) x m p := by
  by_cases same : p = ⟨task, m⟩
  · rw [same]
    exact passes_here guarded m
  · intro stop
    rw [guarded]
    exact (if_neg same).trans (passes stop)

end Enter

theorem Ends.imp {post post' : α → Machine → Prop} {r : EStateM.Result Stop Machine α} (ends : c.Ends m post r)
    (weaker : ∀ a m', c.holds m' → c.grows m m' → post a m' → post' a m') : c.Ends m post' r := by
  cases r with
  | ok a m' => exact ⟨ends.1, ends.2.1, weaker a m' ends.1 ends.2.1 ends.2.2⟩
  | error _ _ => exact ends

theorem Ends.holds {post : α → Machine → Prop} {r : EStateM.Result Stop Machine α} (ends : c.Ends m post r) :
    c.holds (lastMachine r) := by
  cases r with
  | ok a m' => exact ends.1
  | error _ m' => exact ends.1

theorem Ends.grows {post : α → Machine → Prop} {r : EStateM.Result Stop Machine α} (ends : c.Ends m post r) :
    c.grows m (lastMachine r) := by
  cases r with
  | ok a m' => exact ends.2.1
  | error _ m' => exact ends.2

theorem Ends.trans {post : α → Machine → Prop} {m' : Machine} {r : EStateM.Result Stop Machine α}
    (grows : c.grows m m') (ends : c.Ends m' post r) : c.Ends m post r := by
  cases r with
  | ok a m' => exact ⟨ends.1, c.trans grows ends.2.1, ends.2.2⟩
  | error _ _ => exact ⟨ends.1, c.trans grows ends.2⟩

/-! ### Rules -/

namespace Safe

variable {post : α → Machine → Prop}

theorem imp {x : Evaluator → Run α} {post' : α → Machine → Prop} (safe : c.Safe n x m post)
    (weaker : ∀ a m', c.holds m' → c.grows m m' → post a m' → post' a m') : c.Safe n x m post' := by
  intro holds visited
  have kept := safe holds visited
  exact { kept with ends := kept.ends.imp weaker }

theorem any {x : Evaluator → Run α} (safe : c.Safe n x m post) : c.Safe n x m fun _ _ => True :=
  safe.imp fun _ _ _ _ _ => trivial

/-- What does not ask the evaluator passes no point. -/
theorem const {y : Run α} (ends : c.holds m → c.Ends m post (y m)) : c.Safe n (fun _ => y) m post := by
  intro holds _
  have stays (p : Point) : ¬ c.Passes n (fun _ => y) m p := not_passes_same
  exact ⟨fun _ => Or.inr fun _ => rfl, fun p passes => absurd passes (stays p), ends holds,
    fun p passes => absurd passes (stays p), fun p _ passes => absurd passes (stays p)⟩

theorem pure {a : α} (result : c.holds m → post a m) : c.Safe n (fun _ => Pure.pure a) m post :=
  const fun holds => ⟨holds, c.refl m, result holds⟩

theorem fault {line : Nat} {error : RuntimeError} : c.Safe n (fun _ => Run.fault line error) m post :=
  const fun holds => ⟨holds, c.refl m⟩

theorem starve : c.Safe n (fun _ => Run.starve) m post :=
  const fun holds => ⟨holds, c.refl m⟩

theorem bind {x : Evaluator → Run α} {f : Evaluator → α → Run β} {post' : β → Machine → Prop}
    (first : c.Safe n x m post)
    (rest : ∀ a m', c.holds m' → c.grows m m' → post a m' → c.Safe n (fun self => f self a) m' post') :
    c.Safe n (fun self => x self >>= f self) m post' := by
  intro holds visited
  have kept := first holds fun p passes => visited p passes.first
  have ends := kept.ends
  -- A breakpoint that the first run misses is met, if at all, on the machine that it ends with.
  cases result : x (evaluator c.distances n) m with
  | error e m' =>
    rw [result] at ends
    have same {self : Evaluator} (failed : x self m = .error e m') : (x self >>= f self) m = .error e m' :=
      Run.bind_of_error failed _
    have misses {p : Point} (misses : c.Misses n x m p) : c.Misses n (fun self => x self >>= f self) m p :=
      fun stop => (same ((misses stop).trans result)).trans (same result).symm
    have early {p : Point} (passes : c.Passes n (fun self => x self >>= f self) m p) : c.Passes n x m p :=
      (kept.passes p).resolve_right fun missed => passes.not_misses (misses missed)
    refine ⟨fun p => (kept.passes p).imp Passes.first misses, fun p passes => kept.expects p (early passes), ?_,
      fun p passes => ?_, fun p q passes passes' => kept.ordered p q (early passes) (early passes')⟩
    · rw [same result]
      exact ends
    · rw [same result]
      have onward := kept.onward p (early passes)
      rwa [result] at onward
  | ok a m' =>
    rw [result] at ends
    have goes {self : Evaluator} (done : x self m = .ok a m') : (x self >>= f self) m = f self a m' :=
      Run.bind_of_ok done _
    have later {p : Point} (missed : c.Misses n x m p) (stop : Stop) :
        (x (breakpoint c.distances p stop n) >>= f (breakpoint c.distances p stop n)) m =
          f (breakpoint c.distances p stop n) a m' :=
      goes ((missed stop).trans result)
    have behind := rest a m' ends.1 ends.2.1 ends.2.2 ends.1 fun p passes =>
      visited p (.second (kept.passes p) result passes)
    have either {p : Point} (passes : c.Passes n (fun self => x self >>= f self) m p) :
        c.Passes n x m p ∨ c.Passes n (fun self => f self a) m' p :=
      (kept.passes p).imp_right fun missed stop => (later missed stop).symm.trans (passes stop)
    have toMiddle {p : Point} (before : c.Passes n x m p) : c.grows p.machine m' := by
      have onward := (kept.onward p before).2
      rwa [result] at onward
    refine ⟨fun p => ?_, fun p passes => ?_, ?_, fun p passes => ?_, fun p q passes passes' => ?_⟩
    · rcases kept.passes p with before | missed
      · exact Or.inl before.first
      rcases behind.passes p with passes | misses
      · exact Or.inl (.second (kept.passes p) result passes)
      · exact Or.inr fun stop => ((later missed stop).trans (misses stop)).trans (goes result).symm
    · exact (either passes).elim (kept.expects p) (behind.expects p)
    · rw [goes result]
      exact behind.ends.trans ends.2.1
    · rw [goes result]
      rcases either passes with before | after
      · exact ⟨(kept.onward p before).1, c.trans (toMiddle before) behind.ends.grows⟩
      · exact ⟨c.trans ends.2.1 (behind.onward p after).1, (behind.onward p after).2⟩
    · rcases either passes with before | after
      · rcases either passes' with before' | after'
        · exact kept.ordered p q before before'
        · exact Or.inl (c.trans (toMiddle before) (behind.onward q after').1)
      · rcases either passes' with before' | after'
        · exact Or.inr (c.trans (toMiddle before') (behind.onward p after).1)
        · exact behind.ordered p q after after'

theorem read (f : Heap → α) : c.Safe n (fun _ => Run.read f) m fun a m' => m' = m ∧ a = f m.heap :=
  const fun holds => ⟨holds, c.refl m, rfl, rfl⟩

theorem change {f : Heap → Heap} (kept : c.holds m → c.holds { m with heap := f m.heap })
    (grows : c.grows m { m with heap := f m.heap }) :
    c.Safe n (fun _ => Run.change f) m fun _ m' => m' = { m with heap := f m.heap } :=
  const fun holds => ⟨kept holds, grows, rfl⟩

theorem make {f : Heap → α × Heap} (kept : c.holds m → c.holds { m with heap := (f m.heap).2 })
    (grows : c.grows m { m with heap := (f m.heap).2 }) :
    c.Safe n (fun _ => Run.make f) m fun a m' => a = (f m.heap).1 ∧ m' = { m with heap := (f m.heap).2 } :=
  const fun holds => ⟨kept holds, grows, rfl, rfl⟩

theorem ofOption {line : Nat} {error : RuntimeError} (a? : Option α) :
    c.Safe n (fun _ => Run.ofOption line error a?) m fun a m' => m' = m ∧ a? = some a := by
  cases a? with
  | none => exact fault
  | some a => exact pure fun _ => ⟨rfl, rfl⟩

theorem ofExcept {line : Nat} (a : Except RuntimeError α) :
    c.Safe n (fun _ => Run.ofExcept line a) m fun _ m' => m' = m := by
  cases a with
  | error error => exact fault
  | ok a => exact pure fun _ => rfl

theorem printLine {line : Nat} {text : String}
    (written : ∀ bytes, c.holds m → c.holds { m with output := (m.output.write bytes).2 } ∧
      c.grows m { m with output := (m.output.write bytes).2 }) :
    c.Safe n (fun _ => Run.printLine line text) m fun _ _ => True := by
  refine const fun holds => ?_
  obtain ⟨kept, grows⟩ := written (text ++ "\n").toUTF8 holds
  unfold Run.printLine
  simp only
  split
  · exact ⟨kept, grows, trivial⟩
  · exact ⟨kept, grows⟩

theorem ite {p : Prop} [Decidable p] {x y : Evaluator → Run α} (yes : p → c.Safe n x m post)
    (no : ¬ p → c.Safe n y m post) : c.Safe n (fun self => if p then x self else y self) m post := by
  by_cases holds : p
  · simpa only [if_pos holds] using yes holds
  · simpa only [if_neg holds] using no holds

/-- What reads a heap goes on with what is read, on the same machine. -/
theorem reading {f : Heap → α} {x : Evaluator → α → Run β} {post : β → Machine → Prop}
    (rest : c.holds m → c.Safe n (fun self => x self (f m.heap)) m post) :
    c.Safe n (fun self => Run.read f >>= x self) m post := by
  intro holds visited
  have kept := rest holds holds visited
  exact ⟨kept.passes, kept.expects, kept.ends, kept.onward, kept.ordered⟩

/-- What needs a value goes on with it if there is one. -/
theorem needing {line : Nat} {error : RuntimeError} {a? : Option α} {x : Evaluator → α → Run β}
    {post : β → Machine → Prop} (rest : ∀ a, a? = some a → c.Safe n (fun self => x self a) m post) :
    c.Safe n (fun self => Run.ofOption line error a? >>= x self) m post := by
  cases a? with
  | none =>
    have fails : c.Safe n (fun _ => Run.fault line error) m fun (_ : α) _ => False := fault
    exact fails.bind fun _ _ _ _ never => never.elim
  | some a => exact rest a rfl

/-- What is got for one element stays good while the others are looked at. -/
theorem eachGood {good : β → Machine → Prop} (stays : ∀ {b m₁ m₂}, c.grows m₁ m₂ → good b m₁ → good b m₂)
    {f : Evaluator → α → Run β} (as : List α)
    (first : ∀ a ∈ as, ∀ m', c.grows m m' → c.Safe n (fun self => f self a) m' good) :
    c.Safe n (fun self => Run.each (f self) as) m fun bs m' => ∀ b ∈ bs, good b m' := by
  induction as generalizing m with
  | nil => exact pure fun _ b member => nomatch member
  | cons a as ih =>
    refine (first a List.mem_cons_self m (c.refl m)).bind fun b m₁ _ grows got => ?_
    refine (ih fun a member m₂ later => ?_).bind fun bs m₂ _ later others => pure fun _ => ?_
    · exact first a (List.mem_cons_of_mem _ member) m₂ (c.trans grows later)
    · intro other member
      rcases List.mem_cons.mp member with rfl | member
      · exact stays later got
      · exact others other member

theorem each {f : Evaluator → α → Run β} (as : List α)
    (first : ∀ a ∈ as, ∀ m', c.grows m m' → c.Safe n (fun self => f self a) m' fun _ _ => True) :
    c.Safe n (fun self => Run.each (f self) as) m fun _ _ => True := by
  refine any (eachGood ?_ as first)
  exact fun _ _ => trivial

/-- A loop ends normally, or returns what its body returns. -/
theorem roundsGood {post : Flow → Machine → Prop} (ended : ∀ m', post .normal m') {test : Evaluator → Run Bool}
    {body : Evaluator → Run Flow} (k : Nat) (tests : ∀ m', c.grows m m' → c.Safe n test m' fun _ _ => True)
    (bodies : ∀ m', c.grows m m' → c.Safe n body m' post) :
    c.Safe n (fun self => Run.rounds k (test self) (body self)) m post := by
  induction k generalizing m with
  | zero => exact starve
  | succ k ih =>
    refine (tests m (c.refl m)).bind fun goesOn m₁ _ grows _ => ?_
    cases goesOn with
    | false => exact pure fun _ => ended m₁
    | true =>
      refine (bodies m₁ grows).bind fun flow m₂ _ further got => ?_
      have again : c.Safe n (fun self => Run.rounds k (test self) (body self)) m₂ post := by
        have before := c.trans grows further
        exact ih (fun m' later => tests m' (c.trans before later)) fun m' later => bodies m' (c.trans before later)
      cases flow with
      | normal => exact again
      | continued => exact again
      | broke => exact pure fun _ => ended m₂
      | returned value => exact pure fun _ => got

theorem rounds {test : Evaluator → Run Bool} {body : Evaluator → Run Flow} (k : Nat)
    (tests : ∀ m', c.grows m m' → c.Safe n test m' fun _ _ => True)
    (bodies : ∀ m', c.grows m m' → c.Safe n body m' fun _ _ => True) :
    c.Safe n (fun self => Run.rounds k (test self) (body self)) m fun _ _ => True :=
  roundsGood (fun _ => trivial) k tests bodies

/-- Without depth nothing is done. -/
theorem starved {x : Evaluator → Run α} (step : x .starved = Run.starve) : c.Safe 0 x m post := by
  intro holds _
  have misses (p : Point) : c.Misses 0 x m p := fun _ => rfl
  have stays (p : Point) (passes : c.Passes 0 x m p) : False := passes.not_misses (misses p)
  refine ⟨fun p => Or.inr (misses p), fun p passes => (stays p passes).elim, ?_,
    fun p passes => (stays p passes).elim, fun p _ passes => (stays p passes).elim⟩
  change c.Ends m post (x .starved m)
  rw [step]
  exact ⟨holds, c.refl m⟩

/-- A task that is visited is done as its parts are. -/
theorem enter (task : Task) {x : Evaluator → Run α} (body : Evaluator → Run α)
    (step : x (evaluator c.distances (n + 1)) = body (evaluator c.distances n))
    (guarded : ∀ p stop, x (breakpoint c.distances p stop (n + 1)) =
      p.guard stop task (body (breakpoint c.distances p stop n)))
    (safe : c.visited ⟨task, m⟩ → c.expects ⟨task, m⟩ ∧ c.Safe n body m post) : c.Safe (n + 1) x m post := by
  intro holds visited
  have here : c.Passes (n + 1) x m ⟨task, m⟩ := passes_here guarded m
  have past {p : Point} (other : p ≠ ⟨task, m⟩) (stop : Stop) :
      x (breakpoint c.distances p stop (n + 1)) m = body (breakpoint c.distances p stop n) m := by
    rw [guarded]
    exact if_neg other
  obtain ⟨expected, safe⟩ := safe (visited _ here)
  have kept := safe holds fun p passes => visited p (passes_inside guarded passes)
  have further {p : Point} (other : p ≠ ⟨task, m⟩) (passes : c.Passes (n + 1) x m p) : c.Passes n body m p :=
    fun stop => (past other stop).symm.trans (passes stop)
  refine ⟨fun p => ?_, fun p passes => ?_, ?_, fun p passes => ?_, fun p q passes passes' => ?_⟩
  · by_cases same : p = ⟨task, m⟩
    · rw [same]
      exact Or.inl here
    rcases kept.passes p with passes | misses
    · exact Or.inl (passes_inside guarded passes)
    · refine Or.inr fun stop => ?_
      rw [past same stop, misses stop, step]
  · by_cases same : p = ⟨task, m⟩
    · rw [same]
      exact ⟨holds, expected⟩
    · exact kept.expects p (further same passes)
  · rw [step]
    exact kept.ends
  · rw [step]
    by_cases same : p = ⟨task, m⟩
    · rw [same]
      exact ⟨c.refl m, kept.ends.grows⟩
    · exact kept.onward p (further same passes)
  · by_cases same : p = ⟨task, m⟩
    · rw [same]
      by_cases same' : q = ⟨task, m⟩
      · rw [same']
        exact Or.inl (c.refl m)
      · exact Or.inl (kept.onward q (further same' passes')).1
    · by_cases same' : q = ⟨task, m⟩
      · rw [same']
        exact Or.inr (kept.onward p (further same passes)).1
      · exact kept.ordered p q (further same passes) (further same' passes')

end Safe

end Contract

end Lox
