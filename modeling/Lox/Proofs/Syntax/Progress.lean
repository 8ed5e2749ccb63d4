import Lox.Proofs.Syntax.Reading

/-!
Every reader moves the cursor onward, and those of expressions, statements and functions take at least
one token.
-/

namespace Lox

open Parse

/-! ### Taking tokens -/

/-- A reader takes at least one token where it succeeds in front of a given one. -/
def Parse.TakesAt {α : Type} (token : Token) (p : Parse α) : Prop :=
  ∀ c a next, c.here.token = token → p c = .ok a next → next.rest.length < c.rest.length

section TakesAt

variable {α β : Type} {token : Token}

theorem Parse.Takes.takesAt {p : Parse α} (takes : p.Takes) : p.TakesAt token :=
  fun c a next _ h => takes c a next h

theorem Parse.Takes.of_peek {f : Token → Parse α} (each : ∀ token, (f token).TakesAt token) :
    (peek >>= f).Takes := by
  intro c a last h
  obtain ⟨token, next, read, h⟩ := bind_eq_ok.mp h
  obtain ⟨rfl, rfl⟩ := peek_eq_ok.mp read
  exact each _ _ _ _ rfl h

theorem takesAt_take (inside : token ≠ .endOfInput) : take.TakesAt token := by
  intro c spot next here h
  obtain ⟨-, rfl⟩ := take_eq_ok.mp h
  have := Cursor.advance_length (c := c) (here ▸ inside)
  omega

theorem Parse.TakesAt.bind {p : Parse α} {f : α → Parse β} (first : p.TakesAt token)
    (second : ∀ a, (f a).Moves) : (p >>= f).TakesAt token := by
  intro c b last here h
  obtain ⟨a, next, hp, hf⟩ := bind_eq_ok.mp h
  exact Nat.lt_of_le_of_lt ((second a).ok hf).length_le (first c a next here hp)

theorem takesAt_take_bind {f : Located → Parse α} (inside : token ≠ .endOfInput)
    (second : ∀ spot, (f spot).Moves) : (take >>= f).TakesAt token :=
  (takesAt_take inside).bind second

end TakesAt

/-! ### Readers move onward -/

structure ExprsMove (n : Nat) : Prop where
  exprAt : ∀ level, (exprAt n level).Moves
  operationsOn : ∀ level left, (operationsOn n level left).Moves
  suffixesOf : ∀ object, (suffixesOf n object).Moves
  items : ∀ closing, (items n closing).Moves
  moreItems : ∀ closing, (moreItems n closing).Moves
  primary : (primary n).Moves

theorem items_moves {n : Nat} (ih : ExprsMove n) (closing : Token) : (items (n + 1) closing).Moves := by
  refine (moves_accept _).bind fun taken => ?_
  split
  · exact moves_pure _
  · exact (ih.exprAt _).bind fun _ => (ih.moreItems _).bind fun _ => moves_pure _

theorem moreItems_moves {n : Nat} (ih : ExprsMove n) (closing : Token) :
    (moreItems (n + 1) closing).Moves := by
  refine (moves_accept _).bind fun taken => ?_
  split
  · exact (ih.exprAt _).bind fun _ => (ih.moreItems _).bind fun _ => moves_pure _
  · exact (moves_expect _).bind fun _ => moves_pure _

theorem operationsOn_moves {n : Nat} (ih : ExprsMove n) (level : Level) (left : Expr) :
    (operationsOn (n + 1) level left).Moves := by
  refine moves_peek.bind fun token => ?_
  split
  · exact moves_take.bind fun _ => (ih.exprAt _).bind fun _ => ih.operationsOn _ _
  · exact moves_pure _

theorem suffixesOf_moves {n : Nat} (ih : ExprsMove n) (object : Expr) :
    (suffixesOf (n + 1) object).Moves := by
  refine moves_peek.bind fun token => ?_
  split
  · exact moves_take.bind fun _ => (ih.items _).bind fun _ => ih.suffixesOf _
  · exact moves_take.bind fun _ => moves_identifier.bind fun _ => ih.suffixesOf _
  · exact moves_take.bind fun _ => (ih.exprAt _).bind fun _ => (moves_expect _).bind fun _ =>
      ih.suffixesOf _
  · exact moves_pure _

theorem primary_moves {n : Nat} (ih : ExprsMove n) : (primary (n + 1)).Moves := by
  refine moves_peek.bind fun token => ?_
  split
  · exact moves_take.bind fun _ => moves_pure _
  split
  · exact moves_take.bind fun _ => moves_fresh.bind fun _ => moves_pure _
  · exact moves_take.bind fun _ => moves_fresh.bind fun _ => moves_pure _
  · exact moves_take.bind fun _ => (moves_expect _).bind fun _ => moves_identifier.bind fun _ =>
      moves_fresh.bind fun _ => moves_pure _
  · exact moves_take.bind fun _ => (ih.exprAt _).bind fun _ => (moves_expect _).bind fun _ =>
      moves_pure _
  · exact moves_take.bind fun _ => (ih.items _).bind fun _ => moves_pure _
  · exact moves_fail _

theorem assignment_moves {n : Nat} (ih : ExprsMove n) : (exprAt (n + 1) .assignment).Moves := by
  refine (ih.exprAt _).bind fun target => moves_peek.bind fun token => ?_
  split
  · refine moves_take.bind fun _ => (ih.exprAt _).bind fun value => ?_
    split
    · exact moves_pure _
    · exact (moves_report _ _).bind fun _ => moves_pure _
  · exact moves_pure _

theorem conditional_moves {n : Nat} (ih : ExprsMove n) : (exprAt (n + 1) .conditional).Moves := by
  refine (ih.exprAt _).bind fun test => (moves_accept _).bind fun taken => ?_
  split
  · exact (ih.exprAt _).bind fun _ => (moves_expect _).bind fun _ => (ih.exprAt _).bind fun _ =>
      moves_pure _
  · exact moves_pure _

theorem unary_moves {n : Nat} (ih : ExprsMove n) : (exprAt (n + 1) .unary).Moves := by
  refine moves_peek.bind fun token => ?_
  split
  · exact moves_take.bind fun _ => (ih.exprAt _).bind fun _ => moves_pure _
  · exact ih.exprAt _

theorem exprs_move (n : Nat) : ExprsMove n := by
  induction n with
  | zero =>
    exact ⟨fun _ => moves_starve, fun _ _ => moves_starve, fun _ => moves_starve,
      fun _ => moves_starve, fun _ => moves_starve, moves_starve⟩
  | succ n ih =>
    refine ⟨fun level => ?_, operationsOn_moves ih, suffixesOf_moves ih, items_moves ih,
      moreItems_moves ih, primary_moves ih⟩
    cases level with
    | assignment => exact assignment_moves ih
    | conditional => exact conditional_moves ih
    | unary => exact unary_moves ih
    | suffix => exact (ih.exprAt _).bind fun _ => ih.suffixesOf _
    | primary => exact ih.primary
    | _ => exact (ih.exprAt _).bind fun _ => ih.operationsOn _ _

theorem moreParams_moves (n : Nat) : (moreParams n).Moves := by
  induction n with
  | zero => exact moves_starve
  | succ n ih =>
    refine (moves_accept _).bind fun taken => ?_
    split
    · exact moves_identifier.bind fun _ => ih.bind fun _ => moves_pure _
    · exact (moves_expect _).bind fun _ => moves_pure _

theorem params_moves (n : Nat) : (params n).Moves := by
  refine (moves_expect _).bind fun _ => (moves_accept _).bind fun taken => ?_
  split
  · exact moves_pure _
  · exact moves_identifier.bind fun _ => (moreParams_moves n).bind fun _ => moves_pure _

theorem superclass_moves : superclass.Moves := by
  refine (moves_acceptEither _ _).bind fun taken => ?_
  split
  · exact moves_identifier.bind fun _ => moves_fresh.bind fun _ => moves_pure _
  · exact moves_pure _

theorem takeJump_moves {depth : Parse Nat} (reads : depth.Moves) (error : StaticError) :
    (takeJump depth error).Moves := by
  refine moves_take.bind fun spot => reads.bind fun found => ?_
  split
  · exact (moves_report _ _).bind fun _ => moves_pure _
  · exact moves_pure _

theorem atBlockEnd_moves : atBlockEnd.Moves :=
  moves_peek.bind fun _ => moves_pure _

theorem varDecl_moves (n : Nat) : (varDecl n).Moves := by
  refine moves_identifier.bind fun found => (moves_accept _).bind fun taken => ?_
  split
  · exact ((exprs_move n).exprAt _).bind fun _ => (moves_expect _).bind fun _ => moves_pure _
  · exact (moves_expect _).bind fun _ => moves_pure _

theorem optionalExpr_moves (n : Nat) (closing : Token) : (optionalExpr n closing).Moves := by
  refine (moves_accept _).bind fun taken => ?_
  split
  · exact moves_pure _
  · exact ((exprs_move n).exprAt _).bind fun _ => (moves_expect _).bind fun _ => moves_pure _

theorem parenExpr_moves (n : Nat) : (parenExpr n).Moves :=
  (moves_expect _).bind fun _ => ((exprs_move n).exprAt _).bind fun _ =>
    (moves_expect _).bind fun _ => moves_pure _

theorem exprStmt_moves (n : Nat) : (exprStmt n).Moves :=
  ((exprs_move n).exprAt _).bind fun _ => (moves_expect _).bind fun _ => moves_pure _

theorem forInitial_moves (n : Nat) : (forInitial n).Moves := by
  refine (moves_accept _).bind fun taken => ?_
  split
  · exact moves_pure _
  refine (moves_accept _).bind fun taken => ?_
  split
  · exact (varDecl_moves n).bind fun _ => moves_pure _
  · exact (exprStmt_moves n).bind fun _ => moves_pure _

structure StmtsMove (n : Nat) : Prop where
  declaration : (declaration n).Moves
  statement : (statement n).Moves
  declarations : (declarations n).Moves
  function : (function n).Moves
  methods : (methods n).Moves

theorem declaration_moves {n : Nat} (ih : StmtsMove n) :
    ∃ p : Parse Stmt, declaration (n + 1) = recover p ∧ p.Moves ∧ ((statement n).Takes → p.Takes) := by
  refine ⟨_, rfl, moves_peek.bind fun token => ?_, fun takes => .of_peek fun token => ?_⟩
  · split
    · exact moves_take.bind fun _ => moves_identifier.bind fun _ => superclass_moves.bind fun _ =>
        ih.methods.braced.bind fun _ => moves_pure _
    · exact moves_take.bind fun _ => ih.function.bind fun _ => moves_pure _
    · exact moves_take.bind fun _ => varDecl_moves n
    · exact ih.statement
  · split
    · exact takesAt_take_bind (by simp) fun _ => moves_identifier.bind fun _ =>
        superclass_moves.bind fun _ => ih.methods.braced.bind fun _ => moves_pure _
    · exact takesAt_take_bind (by simp) fun _ => ih.function.bind fun _ => moves_pure _
    · exact takesAt_take_bind (by simp) fun _ => varDecl_moves n
    · exact takes.takesAt

theorem statement_moves {n : Nat} (ih : StmtsMove n) : (statement (n + 1)).Moves := by
  have exprs := exprs_move n
  refine moves_peek.bind fun token => ?_
  split
  · exact moves_take.bind fun _ => (exprs.exprAt _).bind fun _ => (exprs.moreItems _).bind fun _ =>
      moves_pure _
  · exact ih.declarations.braced.bind fun _ => moves_pure _
  · refine moves_take.bind fun _ => (parenExpr_moves n).bind fun _ => ih.statement.bind fun _ =>
      (moves_accept _).bind fun taken => ?_
    split
    · exact ih.statement.bind fun _ => moves_pure _
    · exact moves_pure _
  · exact moves_take.bind fun _ => (parenExpr_moves n).bind fun _ => ih.statement.inLoop.bind fun _ =>
      moves_pure _
  · exact moves_take.bind fun _ => (moves_expect _).bind fun _ => (forInitial_moves n).bind fun _ =>
      (optionalExpr_moves n _).bind fun _ => (optionalExpr_moves n _).bind fun _ =>
      ih.statement.inLoop.bind fun _ => moves_pure _
  · exact (takeJump_moves moves_loopDepth _).bind fun _ => (moves_expect _).bind fun _ => moves_pure _
  · exact (takeJump_moves moves_loopDepth _).bind fun _ => (moves_expect _).bind fun _ => moves_pure _
  · exact (takeJump_moves moves_functionDepth _).bind fun _ => (optionalExpr_moves n _).bind fun _ =>
      moves_pure _
  · exact exprStmt_moves n

theorem declarations_moves {n : Nat} (ih : StmtsMove n) : (declarations (n + 1)).Moves := by
  refine atBlockEnd_moves.bind fun ends => ?_
  split
  · exact moves_pure _
  · exact ih.declaration.bind fun _ => ih.declarations.bind fun _ => moves_pure _

theorem function_moves {n : Nat} (ih : StmtsMove n) : (function (n + 1)).Moves :=
  moves_identifier.bind fun _ => (params_moves n).bind fun _ =>
    ih.declarations.braced.inFunction.bind fun _ => moves_pure _

theorem methods_moves {n : Nat} (ih : StmtsMove n) : (methods (n + 1)).Moves := by
  refine atBlockEnd_moves.bind fun ends => ?_
  split
  · exact moves_pure _
  · exact ih.function.bind fun _ => ih.methods.bind fun _ => moves_pure _

theorem stmts_move (n : Nat) : StmtsMove n := by
  induction n with
  | zero => exact ⟨moves_starve, moves_starve, moves_starve, moves_starve, moves_starve⟩
  | succ n ih =>
    obtain ⟨p, same, moves, _⟩ := declaration_moves ih
    exact ⟨same ▸ moves.recover, statement_moves ih, declarations_moves ih, function_moves ih,
      methods_moves ih⟩

theorem program_moves (n : Nat) : (program n).Moves := by
  induction n with
  | zero => exact moves_starve
  | succ n ih =>
    refine moves_peek.bind fun token => ?_
    split
    · exact moves_pure _
    · exact (stmts_move n).declaration.bind fun _ => ih.bind fun _ => moves_pure _

theorem primary_takes (n : Nat) : (primary n).Takes := by
  cases n with
  | zero => intro c a next h; simp [primary, starve] at h
  | succ n =>
    have exprs := exprs_move n
    refine .of_peek fun token => ?_
    split
    · next literal =>
      refine takesAt_take_bind ?_ fun _ => moves_pure _
      rintro rfl
      simp [Literal.ofToken?] at literal
    split
    · exact takesAt_take_bind (by simp) fun _ => moves_fresh.bind fun _ => moves_pure _
    · exact takesAt_take_bind (by simp) fun _ => moves_fresh.bind fun _ => moves_pure _
    · exact takesAt_take_bind (by simp) fun _ => (moves_expect _).bind fun _ =>
        moves_identifier.bind fun _ => moves_fresh.bind fun _ => moves_pure _
    · exact takesAt_take_bind (by simp) fun _ => (exprs.exprAt _).bind fun _ =>
        (moves_expect _).bind fun _ => moves_pure _
    · exact takesAt_take_bind (by simp) fun _ => (exprs.items _).bind fun _ => moves_pure _
    · intro c a next _ h
      simp [fail] at h

theorem exprAt_takes (n : Nat) (level : Level) : (exprAt n level).Takes := by
  induction n generalizing level with
  | zero => intro c a next h; simp [exprAt, starve] at h
  | succ n ih =>
    have exprs := exprs_move n
    cases level with
    | assignment =>
      refine (ih _).bind fun target => moves_peek.bind fun token => ?_
      split
      · refine moves_take.bind fun _ => (exprs.exprAt _).bind fun value => ?_
        split
        · exact moves_pure _
        · exact (moves_report _ _).bind fun _ => moves_pure _
      · exact moves_pure _
    | conditional =>
      refine (ih _).bind fun test => (moves_accept _).bind fun taken => ?_
      split
      · exact (exprs.exprAt _).bind fun _ => (moves_expect _).bind fun _ =>
          (exprs.exprAt _).bind fun _ => moves_pure _
      · exact moves_pure _
    | unary =>
      refine .of_peek fun token => ?_
      split
      · next operator =>
        refine takesAt_take_bind ?_ fun _ => (exprs.exprAt _).bind fun _ => moves_pure _
        rintro rfl
        simp [UnaryOp.ofToken?] at operator
      · exact (ih _).takesAt
    | suffix => exact (ih _).bind fun _ => exprs.suffixesOf _
    | primary => exact primary_takes n
    | _ => exact (ih _).bind fun _ => exprs.operationsOn _ _

theorem takesAt_jump {token : Token} {depth : Parse Nat} (inside : token ≠ .endOfInput)
    (reads : depth.Moves) (error : StaticError) : (takeJump depth error).TakesAt token := by
  refine takesAt_take_bind inside fun spot => reads.bind fun found => ?_
  split
  · exact (moves_report _ _).bind fun _ => moves_pure _
  · exact moves_pure _

theorem exprStmt_takes (n : Nat) : (exprStmt n).Takes :=
  (exprAt_takes n _).bind fun _ => (moves_expect _).bind fun _ => moves_pure _

theorem function_takes (n : Nat) : (function n).Takes := by
  cases n with
  | zero => intro c a next h; simp [function, starve] at h
  | succ n =>
    exact takes_identifier.bind fun _ => (params_moves n).bind fun _ =>
      (stmts_move n).declarations.braced.inFunction.bind fun _ => moves_pure _

theorem statement_takes (n : Nat) : (statement n).Takes := by
  cases n with
  | zero => intro c a next h; simp [statement, starve] at h
  | succ n =>
    have exprs := exprs_move n
    have stmts := stmts_move n
    refine .of_peek fun token => ?_
    split
    · exact takesAt_take_bind (by simp) fun _ => (exprs.exprAt _).bind fun _ =>
        (exprs.moreItems _).bind fun _ => moves_pure _
    · exact ((takes_braced stmts.declarations).bind fun _ => moves_pure _).takesAt
    · refine takesAt_take_bind (by simp) fun _ => (parenExpr_moves n).bind fun _ =>
        stmts.statement.bind fun _ => (moves_accept _).bind fun taken => ?_
      split
      · exact stmts.statement.bind fun _ => moves_pure _
      · exact moves_pure _
    · exact takesAt_take_bind (by simp) fun _ => (parenExpr_moves n).bind fun _ =>
        stmts.statement.inLoop.bind fun _ => moves_pure _
    · exact takesAt_take_bind (by simp) fun _ => (moves_expect _).bind fun _ =>
        (forInitial_moves n).bind fun _ => (optionalExpr_moves n _).bind fun _ =>
        (optionalExpr_moves n _).bind fun _ => stmts.statement.inLoop.bind fun _ => moves_pure _
    · exact (takesAt_jump (by simp) moves_loopDepth _).bind fun _ => (moves_expect _).bind fun _ =>
        moves_pure _
    · exact (takesAt_jump (by simp) moves_loopDepth _).bind fun _ => (moves_expect _).bind fun _ =>
        moves_pure _
    · exact (takesAt_jump (by simp) moves_functionDepth _).bind fun _ =>
        (optionalExpr_moves n _).bind fun _ => moves_pure _
    · exact (exprStmt_takes n).takesAt

theorem synchronize_length (c : Cursor) : c.synchronize.rest.length ≤ c.advance.rest.length :=
  (nextStatement_suffix c.here.token c.advance.rest).length_le

/-- A phrase takes a token also where it is dropped, so that reading ends. -/
theorem recover_takes {α : Type} {p : Parse α} {c next : Cursor} {a? : Option α} (moves : p.Moves)
    (takes : p.Takes) (inside : c.here.token ≠ .endOfInput) (read : recover p c = .ok a? next) :
    next.rest.length < c.rest.length := by
  rcases recover_eq_ok.mp read with ⟨a, parsed, -⟩ | ⟨error, middle, failed, -, rfl⟩
  · exact takes _ _ _ parsed
  have moved := (moves.failed failed).trans (middle.onward_report error)
  have synchronized := synchronize_length (middle.report error)
  by_cases atEnd : (middle.report error).here.token = .endOfInput
  · -- All tokens in front of the end are passed, and there is one.
    rw [Cursor.advance_of_end atEnd] at synchronized
    obtain ⟨ls, same, _⟩ := moved.passed
    cases ls with
    | nil =>
      have : c.here = (middle.report error).here := by
        rw [Cursor.here, Cursor.here, same, List.nil_append]
      exact absurd (this ▸ atEnd) inside
    | cons l ls =>
      have length := congrArg List.length same
      simp only [List.cons_append, List.length_cons, List.length_append] at length
      omega
  · have advanced := Cursor.advance_length atEnd
    have length := moved.length_le
    omega

theorem declaration_takes {n : Nat} {c next : Cursor} {s? : Option Stmt}
    (inside : c.here.token ≠ .endOfInput) (read : declaration n c = .ok s? next) :
    next.rest.length < c.rest.length := by
  cases n with
  | zero => simp [declaration, starve] at read
  | succ n =>
    obtain ⟨p, same, moves, takes⟩ := declaration_moves (stmts_move n)
    rw [same] at read
    exact recover_takes moves (takes (statement_takes n)) inside read

end Lox
