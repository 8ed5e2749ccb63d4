import Lox.Proofs.Syntax.Grammar
import Lox.Proofs.Syntax.Progress

/-!
The depth that `parse` grants is enough for every program. Between two tokens the readers go less than
32 deep: one step for each level of expressions, and a few for statements.
-/

namespace Lox

open Parse

variable {α β : Type} {c next : Cursor} {n m : Nat}

/-- The reader has the depth it needs at a cursor. -/
def Parse.Answers (p : Parse α) (c : Cursor) : Prop :=
  p c ≠ .starved

namespace Parse

theorem Answers.bind {p : Parse α} {f : α → Parse β} (first : p.Answers c)
    (second : ∀ a next, p c = .ok a next → (f a).Answers next) : (p >>= f).Answers c := by
  intro h
  rcases bind_eq_starved.mp h with hp | ⟨a, next, hp, hf⟩
  · exact first hp
  · exact second a next hp hf

theorem pure_answers (a : α) : (pure a : Parse α).Answers c :=
  fun h => nomatch h

theorem peek_bind_answers {f : Token → Parse β} (second : (f c.here.token).Answers c) :
    (peek >>= f).Answers c := second

theorem take_bind_answers {f : Located → Parse β} (second : (f c.here).Answers c.advance) :
    (take >>= f).Answers c := second

theorem loopDepth_answers : loopDepth.Answers c :=
  fun h => nomatch h

theorem functionDepth_answers : functionDepth.Answers c :=
  fun h => nomatch h

theorem accept_answers (token : Token) : (accept token).Answers c := by
  unfold Answers accept
  split <;> simp

theorem acceptEither_answers (first second : Token) : (acceptEither first second).Answers c := by
  unfold Answers acceptEither
  split <;> simp

theorem expect_answers (token : Token) : (expect token).Answers c := by
  unfold Answers expect
  split <;> simp

theorem identifier_answers : identifier.Answers c := by
  unfold Answers identifier
  split <;> simp

theorem expect_bind_answers {token : Token} {f : Unit → Parse β}
    (second : c.here.token = token → (f ()).Answers c.advance) : (expect token >>= f).Answers c := by
  refine (expect_answers token).bind fun _ next read => ?_
  obtain ⟨same, rfl⟩ := expect_eq_ok.mp read
  exact second same

theorem accept_bind_answers {token : Token} {f : Bool → Parse β}
    (taken : c.here.token = token → (f true).Answers c.advance) (left : (f false).Answers c) :
    (accept token >>= f).Answers c := by
  refine (accept_answers token).bind fun _ next read => ?_
  rcases accept_eq_ok.mp read with ⟨same, rfl, rfl⟩ | ⟨_, rfl, rfl⟩
  · exact taken same
  · exact left

theorem identifier_bind_answers {f : String × Nat → Parse β}
    (second : ∀ found, c.here.token ≠ .endOfInput → (f found).Answers c.advance) :
    (identifier >>= f).Answers c := by
  refine identifier_answers.bind fun found next read => ?_
  obtain ⟨same, _, rfl⟩ := identifier_eq_ok.mp read
  exact second found (by simp [same])

theorem Answers.inLoop {p : Parse α} (body : p.Answers { c with loops := c.loops + 1 }) :
    (inLoop p).Answers c := by
  unfold Answers Parse.inLoop
  cases read : p { c with loops := c.loops + 1 } with
  | starved => exact absurd read body
  | _ => simp [Reply.nest]

theorem Answers.inFunction {p : Parse α}
    (body : p.Answers { c with loops := 0, functions := c.functions + 1 }) :
    (inFunction p).Answers c := by
  unfold Answers Parse.inFunction
  cases read : p { c with loops := 0, functions := c.functions + 1 } with
  | starved => exact absurd read body
  | _ => simp [Reply.nest]

theorem Answers.recover {p : Parse α} (body : p.Answers c) : (recover p).Answers c := by
  unfold Answers Parse.recover
  cases read : p c with
  | starved => exact absurd read body
  | _ => simp

end Parse

/-- There is an end in front of the cursor, and a depth of `n` reaches all tokens up to it. -/
structure Cursor.Within (n : Nat) (c : Cursor) : Prop where
  ended : ∃ l ∈ c.rest, l.token = .endOfInput
  bound : 32 * c.rest.length ≤ n

namespace Cursor.Within

theorem pos (within : c.Within n) : 32 ≤ n := by
  obtain ⟨l, member, _⟩ := within.ended
  have := List.length_pos_of_mem member
  have := within.bound
  omega

theorem mono (within : c.Within n) (le : n ≤ m) : c.Within m :=
  ⟨within.ended, Nat.le_trans within.bound le⟩

theorem onward (within : c.Within n) (moved : c.Onward next) : next.Within n := by
  obtain ⟨ls, same, inside⟩ := moved.passed
  obtain ⟨l, member, atEnd⟩ := within.ended
  refine ⟨⟨l, ?_, atEnd⟩, Nat.le_trans (Nat.mul_le_mul_left 32 moved.length_le) within.bound⟩
  rw [same] at member
  exact (List.mem_append.mp member).resolve_left fun passed => inside l passed atEnd

/-- Each token that is taken gives back 32 steps. -/
theorem shorter (within : c.Within n) (moved : c.Onward next)
    (taken : next.rest.length < c.rest.length) (le : n ≤ m + 32) : next.Within m := by
  refine ⟨(within.onward moved).ended, ?_⟩
  have := within.bound
  omega

theorem nested (within : c.Within n) (loops functions : Nat) :
    { c with loops := loops, functions := functions }.Within n :=
  ⟨within.ended, within.bound⟩

theorem advance (within : c.Within n) (inside : c.here.token ≠ .endOfInput) (le : n ≤ m + 32) :
    c.advance.Within m :=
  within.shorter c.onward_advance (by have := Cursor.advance_length inside; omega) le

end Cursor.Within

structure ExprsAnswer (n : Nat) : Prop where
  exprAt : ∀ level c, c.Within (n + level.rank + 3) → (exprAt n level).Answers c
  operationsOn : ∀ level left c, c.Within n → (operationsOn n level left).Answers c
  suffixesOf : ∀ object c, c.Within n → (suffixesOf n object).Answers c
  items : ∀ closing c, c.Within (n + 3) → (items n closing).Answers c
  moreItems : ∀ closing c, c.Within n → (moreItems n closing).Answers c
  primary : ∀ c, c.Within (n + 15) → (primary n).Answers c

theorem Level.rank_le (level : Level) : level.rank ≤ 11 := by
  cases level <;> decide

theorem moreItems_answers {closing : Token} (ih : ExprsAnswer n) (within : c.Within (n + 1)) :
    (moreItems (n + 1) closing).Answers c := by
  refine accept_bind_answers (fun same => ?_) (expect_bind_answers fun _ => pure_answers _)
  have fits : c.advance.Within n := within.advance (by simp [same]) (by omega)
  refine (ih.exprAt .assignment _ (fits.mono (by omega))).bind fun first next read => ?_
  have moved := ((exprs_move n).exprAt _).ok read
  exact (ih.moreItems _ _ (fits.onward moved)).bind fun others last _ => pure_answers _

theorem items_answers {closing : Token} (ih : ExprsAnswer n) (within : c.Within (n + 1 + 3)) :
    (items (n + 1) closing).Answers c := by
  refine accept_bind_answers (fun _ => pure_answers _) ?_
  refine (ih.exprAt .assignment _ (within.mono (by simp [Level.rank]))).bind fun _ next read => ?_
  have moved := ((exprs_move n).exprAt _).ok read
  have fits : next.Within n := within.shorter moved (exprAt_takes n _ _ _ _ read) (by omega)
  exact (ih.moreItems _ _ fits).bind fun others last _ => pure_answers _

theorem operationsOn_answers {level : Level} {left : Expr} (ih : ExprsAnswer n)
    (within : c.Within (n + 1)) : (operationsOn (n + 1) level left).Answers c := by
  refine peek_bind_answers ?_
  split
  · next op operator =>
    have inside : c.here.token ≠ .endOfInput := by
      intro same
      simp [same, Level.operator?, BinaryOp.ofToken?] at operator
    have fits : c.advance.Within n := within.advance inside (by omega)
    refine take_bind_answers ((ih.exprAt _ _ (fits.mono (by omega))).bind fun right next read => ?_)
    exact ih.operationsOn _ _ _ (fits.onward (((exprs_move n).exprAt _).ok read))
  · exact pure_answers _

theorem suffixesOf_answers {object : Expr} (ih : ExprsAnswer n) (within : c.Within (n + 1)) :
    (suffixesOf (n + 1) object).Answers c := by
  have exprs := exprs_move n
  refine peek_bind_answers ?_
  split
  · next same =>
    have fits : c.advance.Within n := within.advance (by simp [same]) (by omega)
    refine take_bind_answers ((ih.items _ _ (fits.mono (by omega))).bind fun _ next read => ?_)
    exact ih.suffixesOf _ _ (fits.onward ((exprs.items _).ok read))
  · next same =>
    have fits : c.advance.Within n := within.advance (by simp [same]) (by omega)
    refine take_bind_answers (identifier_answers.bind fun _ next read => ?_)
    exact ih.suffixesOf _ _ (fits.onward (moves_identifier.ok read))
  · next same =>
    have fits : c.advance.Within n := within.advance (by simp [same]) (by omega)
    refine take_bind_answers ((ih.exprAt _ _ (fits.mono (by omega))).bind fun _ next read => ?_)
    have fits := fits.onward ((exprs.exprAt _).ok read)
    exact expect_bind_answers fun _ => ih.suffixesOf _ _ (fits.onward next.onward_advance)
  · exact pure_answers _

theorem primary_answers (ih : ExprsAnswer n) (within : c.Within (n + 1 + 15)) :
    (primary (n + 1)).Answers c := by
  refine peek_bind_answers ?_
  split
  · exact take_bind_answers (pure_answers _)
  split
  · exact take_bind_answers (pure_answers _)
  · exact take_bind_answers (pure_answers _)
  · exact take_bind_answers (expect_bind_answers fun _ => identifier_bind_answers fun _ _ =>
      pure_answers _)
  · next same =>
    have fits : c.advance.Within n := within.advance (by simp [same]) (by omega)
    refine take_bind_answers ((ih.exprAt _ _ (fits.mono (by omega))).bind fun _ next read => ?_)
    exact expect_bind_answers fun _ => pure_answers _
  · next same =>
    have fits : c.advance.Within n := within.advance (by simp [same]) (by omega)
    exact take_bind_answers ((ih.items _ _ (fits.mono (by omega))).bind fun _ next _ => pure_answers _)
  · exact fun h => nomatch h

theorem assignment_answers (ih : ExprsAnswer n) (within : c.Within (n + 1 + 1 + 3)) :
    (exprAt (n + 1) .assignment).Answers c := by
  refine (ih.exprAt .conditional _ (within.mono (by simp [Level.rank]))).bind
    fun target next read => peek_bind_answers ?_
  have moved := ((exprs_move n).exprAt _).ok read
  have fits : next.Within n := within.shorter moved (exprAt_takes n _ _ _ _ read) (by omega)
  split
  · refine take_bind_answers ((ih.exprAt .assignment _ ?_).bind fun value last _ => ?_)
    · exact (fits.onward next.onward_advance).mono (by omega)
    split
    · exact pure_answers _
    · exact fun h => nomatch h
  · exact pure_answers _

theorem conditional_answers (ih : ExprsAnswer n) (within : c.Within (n + 1 + 2 + 3)) :
    (exprAt (n + 1) .conditional).Answers c := by
  have exprs := exprs_move n
  refine (ih.exprAt .or _ (within.mono (by simp [Level.rank]))).bind
    fun test next read => accept_bind_answers (fun same => ?_) (pure_answers _)
  have fits : next.Within n :=
    within.shorter ((exprs.exprAt _).ok read) (exprAt_takes n _ _ _ _ read) (by omega)
  have fits := fits.onward next.onward_advance
  refine (ih.exprAt .assignment _ (fits.mono (by omega))).bind fun consequent middle read => ?_
  have fits := (fits.onward ((exprs.exprAt _).ok read)).onward middle.onward_advance
  refine expect_bind_answers fun _ => ?_
  exact (ih.exprAt .conditional _ (fits.mono (by omega))).bind fun _ last _ => pure_answers _

theorem unary_answers (ih : ExprsAnswer n) (within : c.Within (n + 1 + 9 + 3)) :
    (exprAt (n + 1) .unary).Answers c := by
  refine peek_bind_answers ?_
  split
  · next op operator =>
    have inside : c.here.token ≠ .endOfInput := by
      intro same
      simp [same, UnaryOp.ofToken?] at operator
    have fits : c.advance.Within n := within.advance inside (by omega)
    exact take_bind_answers ((ih.exprAt .unary _ (fits.mono (by omega))).bind fun _ next _ =>
      pure_answers _)
  · exact ih.exprAt .suffix _ (within.mono (by simp [Level.rank]))

theorem exprs_answer (n : Nat) : ExprsAnswer n := by
  induction n with
  | zero =>
    refine ⟨fun level c within => ?_, fun _ _ c within => ?_, fun _ c within => ?_,
      fun _ c within => ?_, fun _ c within => ?_, fun c within => ?_⟩
    · have := within.pos
      have := level.rank_le
      omega
    all_goals
      have := within.pos
      omega
  | succ n ih =>
    refine ⟨fun level c within => ?_, fun _ _ _ => operationsOn_answers ih,
      fun _ _ => suffixesOf_answers ih, fun _ _ => items_answers ih, fun _ _ => moreItems_answers ih,
      fun _ => primary_answers ih⟩
    have operations : ∀ {level : Level}, level.tighter.rank = level.rank + 1 →
        c.Within (n + 1 + level.rank + 3) →
        (do let left ← exprAt n level.tighter; operationsOn n level left).Answers c := by
      intro level step within
      refine (ih.exprAt level.tighter _ (within.mono (by omega))).bind fun left next read => ?_
      have := level.rank_le
      exact ih.operationsOn _ _ _
        (within.shorter (((exprs_move n).exprAt _).ok read) (exprAt_takes n _ _ _ _ read) (by omega))
    cases level with
    | assignment => exact assignment_answers ih within
    | conditional => exact conditional_answers ih within
    | unary => exact unary_answers ih within
    | suffix =>
      refine (ih.exprAt .primary _ (within.mono (by simp [Level.rank]))).bind
        fun object next read => ?_
      exact ih.suffixesOf _ _ (within.shorter (((exprs_move n).exprAt _).ok read)
        (exprAt_takes n _ _ _ _ read) (by simp [Level.rank]))
    | primary => exact ih.primary _ (within.mono (by simp [Level.rank]))
    | _ => exact operations rfl within

/-! ### Statements -/

theorem moreParams_answers (n : Nat) (c : Cursor) (within : c.Within n) : (moreParams n).Answers c := by
  induction n generalizing c with
  | zero => have := within.pos; omega
  | succ n ih =>
    refine accept_bind_answers (fun same => ?_) (expect_bind_answers fun _ => pure_answers _)
    have fits : c.advance.Within n := within.advance (by simp [same]) (by omega)
    refine identifier_bind_answers fun found _ => ?_
    exact (ih _ (fits.onward (Cursor.onward_advance _))).bind fun _ _ _ => pure_answers _

theorem params_answers (within : c.Within n) : (params n).Answers c := by
  refine expect_bind_answers fun _ => accept_bind_answers (fun _ => pure_answers _) ?_
  refine identifier_bind_answers fun found _ => ?_
  have fits := (within.onward c.onward_advance).onward (Cursor.onward_advance _)
  exact (moreParams_answers n _ fits).bind fun _ _ _ => pure_answers _

theorem superclass_answers : superclass.Answers c := by
  refine (acceptEither_answers _ _).bind fun taken next _ => ?_
  split
  · exact identifier_bind_answers fun _ _ => pure_answers _
  · exact pure_answers _

theorem takeJump_answers {depth : Parse Nat} {error : StaticError} (reads : ∀ c, depth.Answers c) :
    (takeJump depth error).Answers c := by
  refine take_bind_answers ((reads _).bind fun found next _ => ?_)
  split
  · exact fun h => nomatch h
  · exact pure_answers _

theorem exprStmt_answers (within : c.Within (n + 3)) : (exprStmt n).Answers c :=
  ((exprs_answer n).exprAt .comma _ within).bind fun _ _ _ => expect_bind_answers fun _ => pure_answers _

theorem varDecl_answers (within : c.Within n) : (varDecl n).Answers c := by
  refine identifier_bind_answers fun found _ => ?_
  have fits := within.onward c.onward_advance
  refine accept_bind_answers (fun _ => ?_) (expect_bind_answers fun _ => pure_answers _)
  have fits := fits.onward (Cursor.onward_advance _)
  exact ((exprs_answer n).exprAt .comma _ (fits.mono (by omega))).bind fun _ _ _ =>
    expect_bind_answers fun _ => pure_answers _

theorem optionalExpr_answers {closing : Token} (within : c.Within n) :
    (optionalExpr n closing).Answers c := by
  refine accept_bind_answers (fun _ => pure_answers _) ?_
  exact ((exprs_answer n).exprAt .comma _ (within.mono (by omega))).bind fun _ _ _ =>
    expect_bind_answers fun _ => pure_answers _

theorem parenExpr_answers (within : c.Within n) : (parenExpr n).Answers c := by
  refine expect_bind_answers fun _ => ?_
  have fits := within.onward c.onward_advance
  exact ((exprs_answer n).exprAt .comma _ (fits.mono (by omega))).bind fun _ _ _ =>
    expect_bind_answers fun _ => pure_answers _

theorem forInitial_answers (within : c.Within n) : (forInitial n).Answers c := by
  refine accept_bind_answers (fun _ => pure_answers _) (accept_bind_answers (fun _ => ?_) ?_)
  · exact (varDecl_answers (within.onward c.onward_advance)).bind fun _ _ _ => pure_answers _
  · exact (exprStmt_answers (within.mono (by omega))).bind fun _ _ _ => pure_answers _

structure StmtsAnswer (n : Nat) : Prop where
  declaration : ∀ c, c.Within (n + 1) → (declaration n).Answers c
  statement : ∀ c, c.Within (n + 2) → (statement n).Answers c
  declarations : ∀ c, c.Within n → (declarations n).Answers c
  function : ∀ c, c.Within (n + 1) → (function n).Answers c
  methods : ∀ c, c.Within n → (methods n).Answers c

theorem braced_answers {p : Parse α} (body : p.Answers c.advance) : (braced p).Answers c :=
  expect_bind_answers fun _ => body.bind fun _ _ _ => expect_bind_answers fun _ => pure_answers _

theorem function_answers (ih : StmtsAnswer n) (within : c.Within (n + 1 + 1)) :
    (function (n + 1)).Answers c := by
  refine identifier_bind_answers fun found inside => ?_
  have fits : c.advance.Within n := within.advance inside (by omega)
  refine (params_answers fits).bind fun _ next read => ?_
  have fits := (fits.onward ((params_moves n).ok read)).nested 0 (next.functions + 1)
  have fits := fits.onward (Cursor.onward_advance _)
  exact (Answers.inFunction (braced_answers (ih.declarations _ fits))).bind fun _ _ _ => pure_answers _

theorem declaration_answers (ih : StmtsAnswer n) (within : c.Within (n + 1 + 1)) :
    (declaration (n + 1)).Answers c := by
  refine Answers.recover (peek_bind_answers ?_)
  split
  · next same =>
    have fits : c.advance.Within n := within.advance (by simp [same]) (by omega)
    refine take_bind_answers (identifier_bind_answers fun _ _ => ?_)
    refine superclass_answers.bind fun _ next read => ?_
    have fits := (fits.onward (Cursor.onward_advance _)).onward (superclass_moves.ok read)
    exact (braced_answers (ih.methods _ (fits.onward next.onward_advance))).bind fun _ _ _ => pure_answers _
  · next same =>
    have fits : c.advance.Within n := within.advance (by simp [same]) (by omega)
    exact take_bind_answers ((ih.function _ (fits.mono (by omega))).bind fun _ _ _ => pure_answers _)
  · next same =>
    have fits : c.advance.Within n := within.advance (by simp [same]) (by omega)
    exact take_bind_answers (varDecl_answers fits)
  · exact ih.statement _ within

theorem statement_answers (ih : StmtsAnswer n) (within : c.Within (n + 1 + 2)) :
    (statement (n + 1)).Answers c := by
  have exprs := exprs_answer n
  have moves := exprs_move n
  -- Behind the keyword that a statement starts with, the depth is enough for each of its parts.
  have behind : c.here.token ≠ .endOfInput → c.advance.Within n :=
    fun inside => within.advance inside (by omega)
  have loop : ∀ {c : Cursor}, c.Within n → (inLoop (statement n)).Answers c := fun fits =>
    Answers.inLoop (ih.statement _ ((fits.nested _ _).mono (by omega)))
  refine peek_bind_answers ?_
  split
  · next same =>
    have fits := behind (by simp [same])
    refine take_bind_answers ((exprs.exprAt .assignment _ (fits.mono (by omega))).bind
      fun _ _ read => ?_)
    have fits := fits.onward ((moves.exprAt _).ok read)
    exact (exprs.moreItems _ _ fits).bind fun _ _ _ => pure_answers _
  · next same =>
    have fits := behind (by simp [same])
    exact (braced_answers (ih.declarations _ fits)).bind fun _ _ _ => pure_answers _
  · next same =>
    have fits := behind (by simp [same])
    refine take_bind_answers ((parenExpr_answers fits).bind fun _ _ read => ?_)
    have fits := fits.onward ((parenExpr_moves n).ok read)
    refine (ih.statement _ (fits.mono (by omega))).bind fun _ _ read => ?_
    have fits := fits.onward ((stmts_move n).statement.ok read)
    refine accept_bind_answers (fun _ => ?_) (pure_answers _)
    have fits := fits.onward (Cursor.onward_advance _)
    exact (ih.statement _ (fits.mono (by omega))).bind fun _ _ _ => pure_answers _
  · next same =>
    have fits := behind (by simp [same])
    refine take_bind_answers ((parenExpr_answers fits).bind fun _ _ read => ?_)
    exact (loop (fits.onward ((parenExpr_moves n).ok read))).bind fun _ _ _ => pure_answers _
  · next same =>
    have fits := behind (by simp [same])
    refine take_bind_answers (expect_bind_answers fun _ => ?_)
    have fits := fits.onward (Cursor.onward_advance _)
    refine (forInitial_answers fits).bind fun _ _ read => ?_
    have fits := fits.onward ((forInitial_moves n).ok read)
    refine (optionalExpr_answers fits).bind fun _ _ read => ?_
    have fits := fits.onward ((optionalExpr_moves n _).ok read)
    refine (optionalExpr_answers fits).bind fun _ _ read => ?_
    have fits := fits.onward ((optionalExpr_moves n _).ok read)
    exact (loop fits).bind fun _ _ _ => pure_answers _
  · exact (takeJump_answers fun _ => loopDepth_answers).bind fun _ _ _ =>
      expect_bind_answers fun _ => pure_answers _
  · exact (takeJump_answers fun _ => loopDepth_answers).bind fun _ _ _ =>
      expect_bind_answers fun _ => pure_answers _
  · next same =>
    refine (takeJump_answers fun _ => functionDepth_answers).bind fun _ next read => ?_
    have fits := within.shorter ((takeJump_moves moves_functionDepth _).ok read)
      (takesAt_jump (by simp) moves_functionDepth _ _ _ _ same read) (m := n) (by omega)
    exact (optionalExpr_answers fits).bind fun _ _ _ => pure_answers _
  · exact exprStmt_answers within

theorem atBlockEnd_bind_answers {f : Bool → Parse β} (ends : (f true).Answers c)
    (goes : c.here.token ≠ .endOfInput → (f false).Answers c) : (atBlockEnd >>= f).Answers c := by
  intro starved
  obtain h | ⟨found, next, read, h⟩ := bind_eq_starved.mp starved
  · cases h
  obtain ⟨rfl, rfl⟩ := atBlockEnd_eq_ok.mp read
  by_cases same : next.here.token = .mark .rightCurly ∨ next.here.token = .endOfInput
  · simp only [same, decide_true] at h
    exact ends h
  · simp only [same, decide_false] at h
    exact goes (fun atEnd => same (Or.inr atEnd)) h

theorem declarations_answers (ih : StmtsAnswer n) (within : c.Within (n + 1)) :
    (declarations (n + 1)).Answers c := by
  refine atBlockEnd_bind_answers (pure_answers _) fun inside => ?_
  refine (ih.declaration _ within).bind fun _ next read => ?_
  have fits : next.Within n :=
    within.shorter ((stmts_move n).declaration.ok read) (declaration_takes inside read) (by omega)
  exact (ih.declarations _ fits).bind fun _ _ _ => pure_answers _

theorem methods_answers (ih : StmtsAnswer n) (within : c.Within (n + 1)) :
    (methods (n + 1)).Answers c := by
  refine atBlockEnd_bind_answers (pure_answers _) fun inside => ?_
  refine (ih.function _ within).bind fun _ next read => ?_
  have fits : next.Within n :=
    within.shorter ((stmts_move n).function.ok read) (function_takes n _ _ _ read) (by omega)
  exact (ih.methods _ fits).bind fun _ _ _ => pure_answers _

theorem stmts_answer (n : Nat) : StmtsAnswer n := by
  induction n with
  | zero =>
    refine ⟨fun c within => ?_, fun c within => ?_, fun c within => ?_, fun c within => ?_,
      fun c within => ?_⟩
    all_goals
      have := within.pos
      omega
  | succ n ih =>
    exact ⟨fun _ => declaration_answers ih, fun _ => statement_answers ih,
      fun _ => declarations_answers ih, fun _ => function_answers ih, fun _ => methods_answers ih⟩

theorem program_answers (n : Nat) (c : Cursor) (within : c.Within n) : (program n).Answers c := by
  induction n generalizing c with
  | zero => have := within.pos; omega
  | succ n ih =>
    refine peek_bind_answers ?_
    split
    · exact pure_answers _
    · next inside =>
      refine ((stmts_answer n).declaration _ within).bind fun _ next read => ?_
      have fits : next.Within n :=
        within.shorter ((stmts_move n).declaration.ok read) (declaration_takes inside read) (by omega)
      exact (ih _ fits).bind fun _ _ _ => pure_answers _

/-! ### Whole programs -/

theorem closed_length_le (tokens : List Located) : (closed tokens).length ≤ tokens.length + 1 := by
  unfold closed
  split
  · simp
  split
  · omega
  · simp

theorem closed_ended (tokens : List Located) : ∃ l ∈ closed tokens, l.token = .endOfInput := by
  unfold closed
  split
  · exact ⟨_, List.mem_singleton.mpr rfl, rfl⟩
  · next last same =>
    split
    · next atEnd => exact ⟨last, List.mem_of_getLast? same, atEnd⟩
    · exact ⟨_, List.mem_append_right _ (List.mem_singleton.mpr rfl), rfl⟩

theorem start_within (nextId : Nat) (tokens : List Located) :
    (Cursor.start nextId tokens).Within (depthFor tokens) :=
  ⟨closed_ended tokens, Nat.mul_le_mul_left 32 (closed_length_le tokens)⟩

/-- A program is read to an end: the depth that is granted is never used up, and since errors are
reported where they occur, reading as a whole does not fail. -/
theorem program_answers_start (nextId : Nat) (tokens : List Located) :
    (program (depthFor tokens)).Answers (.start nextId tokens) :=
  program_answers _ _ (start_within nextId tokens)

theorem declaration_unfailed (n : Nat) {error : Diagnostic} : declaration n c ≠ .failed error next := by
  intro failed
  cases n with
  | zero => cases failed
  | succ n =>
    rw [declaration, recover] at failed
    split at failed <;> cases failed

theorem program_unfailed (n : Nat) {error : Diagnostic} : program n c ≠ .failed error next := by
  induction n generalizing c with
  | zero =>
    intro failed
    cases failed
  | succ n ih =>
    intro failed
    obtain failed | ⟨token, _, read, failed⟩ := bind_eq_failed.mp failed
    · cases failed
    obtain ⟨rfl, rfl⟩ := peek_eq_ok.mp read
    split at failed
    · cases failed
    obtain failed | ⟨first?, middle, -, failed⟩ := bind_eq_failed.mp failed
    · exact declaration_unfailed n failed
    obtain failed | ⟨others, last, -, failed⟩ := bind_eq_failed.mp failed
    · exact ih failed
    · cases failed

theorem program_reads (nextId : Nat) (tokens : List Located) :
    ∃ statements last, program (depthFor tokens) (.start nextId tokens) = .ok statements last := by
  cases read : program (depthFor tokens) (.start nextId tokens) with
  | ok statements last => exact ⟨statements, last, rfl⟩
  | failed error last => exact absurd read (program_unfailed _)
  | starved => exact absurd read (program_answers_start nextId tokens)

end Lox
