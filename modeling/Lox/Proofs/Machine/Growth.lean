import Lox.Proofs.Machine.Composition

/-!
What every run does to a machine. A relation between machines that allows each change to a heap and each
write holds between the machine on which any expression, statement or call starts and the one on which
it ends, normally or not.
-/

namespace Lox

open Run

/-- A relation allows all that a run may do to a machine. -/
structure Allows (R : Machine → Machine → Prop) : Prop where
  refl : ∀ m, R m m
  trans : ∀ {m₁ m₂ m₃}, R m₁ m₂ → R m₂ m₃ → R m₁ m₃
  addFrame : ∀ m parent, R m { m with heap := (m.heap.addFrame parent).2 }
  addClosure : ∀ m closure, R m { m with heap := (m.heap.addClosure closure).2 }
  addClass : ∀ m made, R m { m with heap := (m.heap.addClass made).2 }
  addInstance : ∀ m classRef, R m { m with heap := (m.heap.addInstance classRef).2 }
  addArray : ∀ m elements, R m { m with heap := (m.heap.addArray elements).2 }
  bind : ∀ m frame name value, R m { m with heap := m.heap.bind frame name value }
  setField : ∀ m receiver name value, R m { m with heap := m.heap.setField receiver name value }
  setElement : ∀ m array index value, R m { m with heap := m.heap.setElement array index value }
  pushElement : ∀ m array value, R m { m with heap := m.heap.pushElement array value }
  write : ∀ m bytes, R m { m with output := (m.output.write bytes).2 }

/-- The machine on which a run ends. -/
def lastMachine {α : Type} : EStateM.Result Stop Machine α → Machine
  | .ok _ m => m
  | .error _ m => m

/-- A run does no more to a machine than a relation allows. -/
def Run.Within {α : Type} (R : Machine → Machine → Prop) (x : Run α) : Prop :=
  ∀ m, R m (lastMachine (x m))

/-- All that an evaluator does stays within a relation. -/
structure Evaluator.Within (R : Machine → Machine → Prop) (ev : Evaluator) : Prop where
  expr : ∀ frame e, (ev.expr frame e).Within R
  stmt : ∀ frame s, (ev.stmt frame s).Within R
  invoke : ∀ closure arguments, (ev.invoke closure arguments).Within R

namespace Allows

variable {R : Machine → Machine → Prop} {α β : Type} (allows : Allows R)
include allows

theorem andThen {x : Run α} {f : α → Run β} (first : x.Within R) (rest : ∀ a, (f a).Within R) :
    (x >>= f).Within R := by
  intro m
  have before := first m
  change R m (lastMachine (EStateM.bind x f m))
  unfold EStateM.bind
  cases result : x m with
  | ok a m' =>
    rw [result] at before
    exact allows.trans before (rest a m')
  | error e m' =>
    rw [result] at before
    exact before

theorem bindParams (frame : Ref .frame) (params : List String) (arguments : List Value) (m : Machine) :
    R m { m with heap := Lox.bindParams frame params arguments m.heap } := by
  unfold Lox.bindParams
  induction params.zip arguments generalizing m with
  | nil => exact allows.refl m
  | cons pair rest ih => exact allows.trans (allows.bind m frame pair.1 pair.2) (ih _)

theorem printLine (line : Nat) (text : String) : (Run.printLine line text).Within R := by
  intro m
  have written := allows.write m (text ++ "\n").toUTF8
  unfold Run.printLine
  simp only
  split
  · exact written
  · exact written

/-- What stays within the relation passes from parts to wholes. -/
theorem composes (distances : Distances) : Composes distances fun n x => (x (evaluator distances n)).Within R where
  pure _ := allows.refl
  fault _ _ := allows.refl
  starve := allows.refl
  read _ := allows.refl
  andThen first rest := allows.andThen first rest
  addFrame parent m := allows.addFrame m parent
  addClosure closure m := allows.addClosure m closure
  addClass made m := allows.addClass m made
  addInstance classRef m := allows.addInstance m classRef
  addArray elements m := allows.addArray m elements
  bind frame name value m := allows.bind m frame name value
  bindParams frame params arguments m := allows.bindParams frame params arguments m
  setField receiver name value m := allows.setField m receiver name value
  setElement array index value m := allows.setElement m array index value
  pushElement array value m := allows.pushElement m array value
  starved step m := by
    rw [evaluator, step]
    exact allows.refl m
  expr part := part
  print texts := allows.andThen texts fun _ => allows.andThen (allows.printLine _ _) fun _ => allows.refl
  stmt _ part := part
  invoke part := part

end Allows

/-- Whatever is run, to whatever depth, does no more than is allowed. -/
theorem evaluator_within {R : Machine → Machine → Prop} (allows : Allows R) (distances : Distances) (n : Nat) :
    (evaluator distances n).Within R :=
  let all := composed (allows.composes distances) n
  ⟨all.expr, all.stmt, all.invoke⟩

end Lox
