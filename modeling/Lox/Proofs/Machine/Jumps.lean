import Lox.Machine.Execution
import Lox.Proofs.Syntax.Grammar

/-!
Where jumps lead. A loop takes up every break and continue of its body, so that a statement ends by one only
where the grammar lets it stand, and by a return only within a function.
-/

namespace Lox

open Run

/-! ### Runs that end -/

namespace Run

variable {α β : Type} {m m' : Machine} {flow : Flow}

theorem bind_ok {x : Run α} {f : α → Run β} {b : β} (done : (x >>= f) m = .ok b m') :
    ∃ a m₁, x m = .ok a m₁ ∧ f a m₁ = .ok b m' := by
  change EStateM.bind x f m = .ok b m' at done
  unfold EStateM.bind at done
  split at done
  · next a m₁ first => exact ⟨a, m₁, first, done⟩
  · cases done

theorem pure_ok {a b : α} (done : (pure a : Run α) m = .ok b m') : b = a ∧ m' = m := by
  cases done
  exact ⟨rfl, rfl⟩

theorem read_ok {f : Heap → α} {a : α} (done : read f m = .ok a m') : a = f m.heap ∧ m = m' := by
  cases done
  exact ⟨rfl, rfl⟩

theorem ofOption_ok {line : Nat} {error : RuntimeError} {a? : Option α} {a : α}
    (done : ofOption line error a? m = .ok a m') : a? = some a ∧ m = m' := by
  cases a? with
  | none => cases done
  | some b =>
    cases done
    exact ⟨rfl, rfl⟩

/-- One of the runs ends the whole, or all of them end normally. -/
theorem inOrder_ok {f : α → Run Flow} {as : List α} (done : inOrder f as m = .ok flow m') :
    flow = .normal ∨ ∃ a ∈ as, ∃ m₁ m₂, f a m₁ = .ok flow m₂ := by
  induction as generalizing m with
  | nil => exact Or.inl (pure_ok done).1
  | cons a as ih =>
    obtain ⟨first, m₁, ran, done⟩ := bind_ok done
    cases first with
    | normal =>
      rcases ih done with normal | ⟨other, member, later⟩
      · exact Or.inl normal
      · exact Or.inr ⟨other, List.mem_cons_of_mem a member, later⟩
    | _ =>
      obtain ⟨rfl, -⟩ := pure_ok done
      exact Or.inr ⟨a, List.mem_cons_self, m, m₁, ran⟩

/-- A loop ends normally or by a return of its body. -/
theorem rounds_ok {n : Nat} {test : Run Bool} {body : Run Flow} (done : rounds n test body m = .ok flow m') :
    flow = .normal ∨ ∃ value m₁ m₂, flow = .returned value ∧ body m₁ = .ok (.returned value) m₂ := by
  induction n generalizing m with
  | zero => cases done
  | succ n ih =>
    obtain ⟨goesOn, m₁, -, done⟩ := bind_ok done
    cases goesOn with
    | false => exact Or.inl (pure_ok done).1
    | true =>
      obtain ⟨first, m₂, ran, done⟩ := bind_ok done
      -- A break and a continue of the body end here.
      cases first with
      | normal => exact ih done
      | continued => exact ih done
      | broke => exact Or.inl (pure_ok done).1
      | returned value => exact Or.inr ⟨value, m₁, m₂, (pure_ok done).1, ran⟩

end Run

/-! ### Ways to end -/

/-- How control may leave what is or is not within a loop of its function, and within a function. -/
def Flow.Allowed (inLoop inFunction : Bool) : Flow → Prop
  | .normal => True
  | .broke | .continued => inLoop = true
  | .returned _ => inFunction = true

/-- Whether control goes on outside of any loop that it came from. -/
def Flow.PastLoops (flow : Flow) : Prop :=
  flow ≠ .broke ∧ flow ≠ .continued

theorem Flow.PastLoops.of_allowed {inFunction : Bool} {flow : Flow} (allowed : flow.Allowed false inFunction) :
    flow.PastLoops := by
  constructor
  · rintro rfl
    cases allowed
  · rintro rfl
    cases allowed

theorem Flow.normal_of_allowed {flow : Flow} (allowed : flow.Allowed false false) : flow = .normal := by
  cases flow with
  | normal => rfl
  | _ => cases allowed

theorem Stmt.placed_mem {inLoop inFunction : Bool} {ss : List Stmt} (placed : Stmt.PlacedAll inLoop inFunction ss)
    {s : Stmt} (member : s ∈ ss) : s.Placed inLoop inFunction := by
  induction ss with
  | nil => cases member
  | cons first ss ih =>
    rcases List.mem_cons.mp member with rfl | member
    · exact placed.1
    · exact ih placed.2 member

variable {self : Evaluator} {distances : Distances} {n : Nat} {frame : Ref .frame} {m m' : Machine} {flow : Flow}
variable {inLoop inFunction : Bool}

/-! ### Loops -/

/-- A return out of a round is one of the body. -/
theorem execRound_returned {body : Stmt} {step? : Option Expr} {value : Value}
    (done : self.execRound frame body step? m = .ok (.returned value) m') :
    ∃ m₁, self.stmt frame body m = .ok (.returned value) m₁ := by
  obtain ⟨first, m₁, ran, done⟩ := bind_ok done
  cases first with
  | broke => cases (pure_ok done).1
  | returned other =>
    obtain ⟨same, -⟩ := pure_ok done
    exact ⟨m₁, same ▸ ran⟩
  | normal =>
    obtain ⟨_, _, -, done⟩ := bind_ok done
    cases (pure_ok done).1
  | continued =>
    obtain ⟨_, _, -, done⟩ := bind_ok done
    cases (pure_ok done).1

theorem execStmt_while {test : Expr} {body : Stmt}
    (done : self.execStmt distances n frame (.whileLoop test body) m = .ok flow m') :
    flow = .normal ∨
      ∃ value m₁ m₂, flow = .returned value ∧ self.stmt frame body m₁ = .ok (.returned value) m₂ :=
  rounds_ok done

theorem execStmt_for {initial? : Option Stmt} {test? step? : Option Expr} {body : Stmt}
    (done : self.execStmt distances n frame (.forLoop initial? test? step? body) m = .ok flow m') :
    flow = .normal ∨
      ∃ value inner m₁ m₂, flow = .returned value ∧ self.stmt inner body m₁ = .ok (.returned value) m₂ := by
  obtain ⟨inner, _, -, done⟩ := bind_ok done
  obtain ⟨_, _, -, done⟩ := bind_ok done
  rcases rounds_ok done with normal | ⟨value, m₁, m₂, same, ran⟩
  · exact Or.inl normal
  · obtain ⟨m₃, ran⟩ := execRound_returned ran
    exact Or.inr ⟨value, inner, m₁, m₃, same, ran⟩

/-! ### Statements -/

/-- A statement ends in a way that its place allows if its parts do. -/
theorem execStmt_allowed {s : Stmt}
    (parts : ∀ {inLoop inFunction frame s m flow m'}, s.Placed inLoop inFunction →
      self.stmt frame s m = .ok flow m' → flow.Allowed inLoop inFunction)
    (placed : s.Placed inLoop inFunction) (done : self.execStmt distances n frame s m = .ok flow m') :
    flow.Allowed inLoop inFunction := by
  have normal {flow : Flow} (same : flow = .normal) : flow.Allowed inLoop inFunction := by
    rw [same]
    trivial
  cases s with
  | expr value =>
    obtain ⟨_, _, -, done⟩ := bind_ok done
    exact normal (pure_ok done).1
  | print items line =>
    obtain ⟨_, _, -, done⟩ := bind_ok done
    obtain ⟨_, _, -, done⟩ := bind_ok done
    exact normal (pure_ok done).1
  | varDecl name initial? line =>
    obtain ⟨_, _, -, done⟩ := bind_ok done
    obtain ⟨_, _, -, done⟩ := bind_ok done
    exact normal (pure_ok done).1
  | funDecl decl =>
    obtain ⟨_, _, -, done⟩ := bind_ok done
    obtain ⟨_, _, -, done⟩ := bind_ok done
    exact normal (pure_ok done).1
  | classDecl name superclass? methods line =>
    obtain ⟨_, _, -, done⟩ := bind_ok done
    exact normal (pure_ok done).1
  | breakLoop =>
    rw [(pure_ok done).1]
    exact placed
  | continueLoop =>
    rw [(pure_ok done).1]
    exact placed
  | returnValue value? line =>
    obtain ⟨v, _, -, done⟩ := bind_ok done
    rw [(pure_ok done).1]
    exact placed
  | block body =>
    obtain ⟨inner, _, -, done⟩ := bind_ok done
    rcases inOrder_ok done with same | ⟨s, member, m₁, m₂, ran⟩
    · exact normal same
    · exact parts (Stmt.placed_mem placed member) ran
  | ifElse test consequent alternative? =>
    obtain ⟨holds, m₁, -, done⟩ := bind_ok done
    cases alternative? with
    | none =>
      have inside : consequent.Placed inLoop inFunction := placed
      cases holds with
      | true => exact parts inside done
      | false => exact normal (pure_ok done).1
    | some alternative =>
      cases holds with
      | true => exact parts placed.1 done
      | false => exact parts placed.2 done
  | whileLoop test body =>
    rcases execStmt_while done with same | ⟨value, m₁, m₂, rfl, ran⟩
    · exact normal same
    · -- The body may break and continue, but only its returns get out of the loop.
      have allowed : Flow.Allowed true inFunction (.returned value) := parts placed ran
      exact allowed
  | forLoop initial? test? step? body =>
    rcases execStmt_for done with same | ⟨value, inner, m₁, m₂, rfl, ran⟩
    · exact normal same
    · have inside : body.Placed true inFunction := by
        cases initial? with
        | none => exact placed
        | some initial => exact placed.2
      have allowed : Flow.Allowed true inFunction (.returned value) := parts inside ran
      exact allowed

theorem stmt_allowed {s : Stmt} (placed : s.Placed inLoop inFunction)
    (done : (evaluator distances n).stmt frame s m = .ok flow m') : flow.Allowed inLoop inFunction := by
  induction n generalizing inLoop inFunction frame s m flow m' with
  | zero => cases done
  | succ n ih => exact execStmt_allowed ih placed done

theorem stmts_allowed {ss : List Stmt} (placed : Stmt.PlacedAll inLoop inFunction ss)
    (done : inOrder ((evaluator distances n).stmt frame) ss m = .ok flow m') : flow.Allowed inLoop inFunction := by
  rcases inOrder_ok done with rfl | ⟨s, member, m₁, m₂, ran⟩
  · trivial
  · exact stmt_allowed (Stmt.placed_mem placed member) ran

/-! ### Every run -/

/-- However a statement is run, if it comes to an end, then in one of some ways. -/
def Stmt.EndsBy (ways : Flow → Prop) (s : Stmt) : Prop :=
  ∀ distances n frame m flow m', (evaluator distances n).stmt frame s m = .ok flow m' → ways flow

def FunctionDecl.EndsBy (ways : Flow → Prop) (decl : FunctionDecl) : Prop :=
  ∀ distances n frame m flow m',
    inOrder ((evaluator distances n).stmt frame) decl.body m = .ok flow m' → ways flow

theorem Stmt.Placed.endsBy {s : Stmt} (placed : s.Placed inLoop inFunction) :
    s.EndsBy (Flow.Allowed inLoop inFunction) := by
  intro distances n frame m flow m' done
  exact stmt_allowed placed done

theorem FunctionDecl.Placed.endsBy {decl : FunctionDecl} (placed : decl.Placed) : decl.EndsBy Flow.PastLoops := by
  intro distances n frame m flow m' done
  obtain ⟨name, params, body, line⟩ := decl
  have allowed : flow.Allowed false true := stmts_allowed placed done
  exact .of_allowed allowed

/-- No placement is asked of a loop. -/
theorem while_endsBy (test : Expr) (body : Stmt) : (Stmt.whileLoop test body).EndsBy Flow.PastLoops := by
  intro distances n frame m flow m' done
  cases n with
  | zero => cases done
  | succ n =>
    have ran : (evaluator distances n).execStmt distances n frame (.whileLoop test body) m = .ok flow m' := done
    rcases execStmt_while ran with rfl | ⟨value, _, _, rfl, -⟩
    · simp [Flow.PastLoops]
    · simp [Flow.PastLoops]

theorem for_endsBy (initial? : Option Stmt) (test? step? : Option Expr) (body : Stmt) :
    (Stmt.forLoop initial? test? step? body).EndsBy Flow.PastLoops := by
  intro distances n frame m flow m' done
  cases n with
  | zero => cases done
  | succ n =>
    have ran : (evaluator distances n).execStmt distances n frame (.forLoop initial? test? step? body) m =
        .ok flow m' := done
    rcases execStmt_for ran with rfl | ⟨value, _, _, _, rfl, -⟩
    · simp [Flow.PastLoops]
    · simp [Flow.PastLoops]

end Lox
