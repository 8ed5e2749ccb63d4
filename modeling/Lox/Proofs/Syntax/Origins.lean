import Lox.Proofs.Syntax.Soundness

/-!
What the trees of a text are made of. Each name, number and string that is read comes from a token ahead, whatever
is wrong with the text and however much of it is dropped; so what holds of all tokens of a text holds of those of
its statements, and of those of each expression in them.
-/

namespace Lox

open Parse

variable {α β : Type} {P : Token → Prop} {ts us : List Token} {c next : Cursor} {n : Nat}

/-- Marks and keywords have a property of tokens. -/
structure Token.Common (P : Token → Prop) : Prop where
  mark : ∀ m, P (.mark m)
  keyword : ∀ k, P (.keyword k)

/-- Tokens that all have a property. -/
def AllOf (P : Token → Prop) (ts : List Token) : Prop :=
  ∀ t ∈ ts, P t

@[simp] theorem allOf_nil : AllOf P [] :=
  List.forall_mem_nil P

@[simp] theorem allOf_cons {t : Token} : AllOf P (t :: ts) ↔ P t ∧ AllOf P ts :=
  List.forall_mem_cons

@[simp] theorem allOf_append : AllOf P (ts ++ us) ↔ AllOf P ts ∧ AllOf P us :=
  List.forall_mem_append

theorem BinaryOp.common (common : Token.Common P) (op : BinaryOp) : P op.token := by
  cases op with
  | or | and => exact common.keyword _
  | _ => exact common.mark _

theorem UnaryOp.common (common : Token.Common P) (op : UnaryOp) : P op.token := by
  cases op <;> exact common.mark _

/-! ### Tokens ahead -/

/-- The tokens ahead of a cursor have a property. -/
def Cursor.Ahead (P : Token → Prop) (c : Cursor) : Prop :=
  ∀ l ∈ c.rest, l.token ≠ .endOfInput → P l.token

theorem Cursor.Ahead.onward (ahead : c.Ahead P) (moved : c.Onward next) : next.Ahead P := by
  obtain ⟨passed, split, -⟩ := moved.passed
  exact fun l member => ahead l (split ▸ List.mem_append_right passed member)

theorem Cursor.Ahead.here (ahead : c.Ahead P) (inside : c.here.token ≠ .endOfInput) : P c.here.token :=
  ahead c.here (Cursor.rest_eq_cons inside ▸ List.mem_cons_self) inside

/-- What a reader gives is made of tokens with a property, where all tokens ahead have it. -/
def Parse.Draws (P : Token → Prop) (p : Parse α) (tokens : α → List Token) : Prop :=
  ∀ c, c.Ahead P → p.Gives c fun a next => next.Ahead P ∧ AllOf P (tokens a)

namespace Parse

variable {T : α → List Token} {U : β → List Token} {p : Parse α} {f : α → Parse β}

theorem Draws.bind (first : p.Draws P T) (second : ∀ a, AllOf P (T a) → (f a).Draws P U) : (p >>= f).Draws P U :=
  fun c ahead => (first c ahead).bind fun a next _ made => second a made.2 next made.1

theorem draws_pure {a : α} (made : AllOf P (T a)) : (pure a : Parse α).Draws P T :=
  fun _ ahead => pure_gives ⟨ahead, made⟩

theorem draws_starve : (starve : Parse α).Draws P T :=
  fun _ _ => starve_gives

theorem draws_fail {error : StaticError} : (fail error : Parse α).Draws P T :=
  fun _ _ => fail_gives

/-- Nothing is drawn from what a reader says of the tokens that it passes. -/
theorem Moves.then_draws (moves : p.Moves) (second : ∀ a, (f a).Draws P U) : (p >>= f).Draws P U := by
  intro c ahead b last read
  obtain ⟨a, next, first, behind⟩ := bind_eq_ok.mp read
  exact second a next (ahead.onward (moves.ok first)) b last behind

theorem peek_then_draws {f : Token → Parse β} (second : ∀ t, (t ≠ .endOfInput → P t) → (f t).Draws P U) :
    (peek >>= f).Draws P U :=
  fun c ahead => peek_bind_gives (second c.here.token ahead.here c ahead)

theorem identifier_then_draws {f : String × Nat → Parse β}
    (second : ∀ name line, P (.identifier name) → (f (name, line)).Draws P U) : (identifier >>= f).Draws P U :=
  fun c ahead => identifier_bind_gives fun name same =>
    second name c.here.line (same ▸ ahead.here (by simp [same])) c.advance (ahead.onward c.onward_advance)

theorem Draws.inLoop (body : p.Draws P T) : (inLoop p).Draws P T :=
  fun c ahead => Gives.inLoop (body { c with loops := c.loops + 1 } ahead)

theorem Draws.inFunction (body : p.Draws P T) : (inFunction p).Draws P T :=
  fun c ahead => Gives.inFunction (body { c with loops := 0, functions := c.functions + 1 } ahead)

theorem Draws.braced (body : p.Draws P T) : (braced p).Draws P T :=
  (moves_expect _).then_draws fun _ => body.bind fun _ made => (moves_expect _).then_draws fun _ => draws_pure made

theorem Draws.recover (body : p.Draws P T) (moves : (recover p).Moves) : (recover p).Draws P (·.elim [] T) := by
  intro c ahead a? next read
  refine ⟨ahead.onward (moves.ok read), ?_⟩
  rcases recover_eq_ok.mp read with ⟨a, given, rfl⟩ | ⟨_, _, _, rfl, _⟩
  · exact (body c ahead a next given).2
  · exact allOf_nil

end Parse

/-! ### Expressions -/

theorem assigned?_allOf {target value assignment : Expr} (common : Token.Common P)
    (made : target.assigned? value = some assignment) (first : AllOf P target.tokens) (second : AllOf P value.tokens) :
    AllOf P assignment.tokens := by
  rw [assigned?_tokens made]
  exact allOf_append.mpr ⟨first, allOf_cons.mpr ⟨common.mark _, second⟩⟩

structure ExprsDraw (P : Token → Prop) (n : Nat) : Prop where
  exprAt : ∀ level, (exprAt n level).Draws P Expr.tokens
  operationsOn : ∀ level left, AllOf P left.tokens → (operationsOn n level left).Draws P Expr.tokens
  suffixesOf : ∀ object, AllOf P object.tokens → (suffixesOf n object).Draws P Expr.tokens
  items : ∀ closing, (items n closing).Draws P Expr.itemTokens
  moreItems : ∀ closing, (moreItems n closing).Draws P Expr.moreTokens
  primary : (primary n).Draws P Expr.tokens

theorem items_draws (ih : ExprsDraw P n) (closing : Token) : (items (n + 1) closing).Draws P Expr.itemTokens := by
  refine (moves_accept _).then_draws fun taken => ?_
  split
  · exact draws_pure allOf_nil
  · exact (ih.exprAt _).bind fun _ first => (ih.moreItems _).bind fun _ others =>
      draws_pure (allOf_append.mpr ⟨first, others⟩)

section Readers

variable (common : Token.Common P)
include common

theorem moreItems_draws (ih : ExprsDraw P n) (closing : Token) :
    (moreItems (n + 1) closing).Draws P Expr.moreTokens := by
  refine (moves_accept _).then_draws fun taken => ?_
  split
  · refine (ih.exprAt _).bind fun _ first => (ih.moreItems _).bind fun _ others => draws_pure ?_
    simp [Expr.moreTokens, common.mark, first, others]
  · exact (moves_expect _).then_draws fun _ => draws_pure allOf_nil

theorem operationsOn_draws (ih : ExprsDraw P n) (level : Level) (left : Expr) (made : AllOf P left.tokens) :
    (operationsOn (n + 1) level left).Draws P Expr.tokens := by
  refine peek_then_draws fun token _ => ?_
  split
  · next op _ =>
    refine moves_take.then_draws fun _ => (ih.exprAt _).bind fun _ right => ih.operationsOn _ _ ?_
    simp [Expr.tokens, op.common common, made, right]
  · exact draws_pure made

theorem suffixesOf_draws (ih : ExprsDraw P n) (object : Expr) (made : AllOf P object.tokens) :
    (suffixesOf (n + 1) object).Draws P Expr.tokens := by
  refine peek_then_draws fun token _ => ?_
  split
  · refine moves_take.then_draws fun _ => (ih.items _).bind fun _ arguments => ih.suffixesOf _ ?_
    simp [Expr.tokens, common.mark, made, arguments]
  · refine moves_take.then_draws fun _ => identifier_then_draws fun _ _ name => ih.suffixesOf _ ?_
    simp [Expr.tokens, common.mark, made, name]
  · refine moves_take.then_draws fun _ => (ih.exprAt _).bind fun _ index => (moves_expect _).then_draws fun _ =>
      ih.suffixesOf _ ?_
    simp [Expr.tokens, common.mark, made, index]
  · exact draws_pure made

theorem primary_draws (ih : ExprsDraw P n) : (primary (n + 1)).Draws P Expr.tokens := by
  refine peek_then_draws fun token here => ?_
  split
  · next value literal =>
    obtain rfl := Literal.ofToken?_eq_some.mp literal
    exact moves_take.then_draws fun _ => draws_pure (allOf_cons.mpr ⟨here value.token_ne_end, allOf_nil⟩)
  split
  · exact moves_take.then_draws fun _ => moves_fresh.then_draws fun _ =>
      draws_pure (allOf_cons.mpr ⟨here Token.noConfusion, allOf_nil⟩)
  · exact moves_take.then_draws fun _ => moves_fresh.then_draws fun _ =>
      draws_pure (allOf_cons.mpr ⟨common.keyword _, allOf_nil⟩)
  · refine moves_take.then_draws fun _ => (moves_expect _).then_draws fun _ => identifier_then_draws fun _ _ method =>
      moves_fresh.then_draws fun _ => draws_pure ?_
    simp [Expr.tokens, common.mark, common.keyword, method]
  · refine moves_take.then_draws fun _ => (ih.exprAt _).bind fun _ inner => (moves_expect _).then_draws fun _ =>
      draws_pure ?_
    simp [Expr.tokens, common.mark, inner]
  · refine moves_take.then_draws fun _ => (ih.items _).bind fun _ elements => draws_pure ?_
    simp [Expr.tokens, common.mark, elements]
  · exact draws_fail

theorem assignment_draws (ih : ExprsDraw P n) : (exprAt (n + 1) .assignment).Draws P Expr.tokens := by
  refine (ih.exprAt _).bind fun target first => peek_then_draws fun token _ => ?_
  split
  · refine moves_take.then_draws fun _ => (ih.exprAt _).bind fun value second => ?_
    split
    · next made => exact draws_pure (assigned?_allOf common made first second)
    · exact (moves_report _ _).then_draws fun _ => draws_pure first
  · exact draws_pure first

theorem conditional_draws (ih : ExprsDraw P n) : (exprAt (n + 1) .conditional).Draws P Expr.tokens := by
  refine (ih.exprAt _).bind fun test first => (moves_accept _).then_draws fun taken => ?_
  split
  · refine (ih.exprAt _).bind fun _ second => (moves_expect _).then_draws fun _ => (ih.exprAt _).bind fun _ third =>
      draws_pure ?_
    simp [Expr.tokens, common.mark, first, second, third]
  · exact draws_pure first

theorem unary_draws (ih : ExprsDraw P n) : (exprAt (n + 1) .unary).Draws P Expr.tokens := by
  refine peek_then_draws fun token _ => ?_
  split
  · next op _ =>
    exact moves_take.then_draws fun _ => (ih.exprAt _).bind fun _ operand =>
      draws_pure (allOf_cons.mpr ⟨op.common common, operand⟩)
  · exact ih.exprAt _

theorem exprs_draw (n : Nat) : ExprsDraw P n := by
  induction n with
  | zero =>
    exact ⟨fun _ => draws_starve, fun _ _ _ => draws_starve, fun _ _ => draws_starve, fun _ => draws_starve,
      fun _ => draws_starve, draws_starve⟩
  | succ n ih =>
    refine ⟨fun level => ?_, operationsOn_draws common ih, suffixesOf_draws common ih, items_draws ih,
      moreItems_draws common ih, primary_draws common ih⟩
    cases level with
    | assignment => exact assignment_draws common ih
    | conditional => exact conditional_draws common ih
    | unary => exact unary_draws common ih
    | suffix => exact (ih.exprAt _).bind fun _ made => ih.suffixesOf _ made
    | primary => exact ih.primary
    | _ => exact (ih.exprAt _).bind fun _ made => ih.operationsOn _ _ made

/-! ### Statements -/

theorem moreParams_draws (n : Nat) : (moreParams n).Draws P moreParamTokens := by
  induction n with
  | zero => exact draws_starve
  | succ n ih =>
    refine (moves_accept _).then_draws fun taken => ?_
    split
    · refine identifier_then_draws fun _ _ name => ih.bind fun _ others => draws_pure ?_
      simp [moreParamTokens, common.mark, name, others]
    · exact (moves_expect _).then_draws fun _ => draws_pure allOf_nil

theorem params_draws (n : Nat) : (params n).Draws P paramTokens := by
  refine (moves_expect _).then_draws fun _ => (moves_accept _).then_draws fun taken => ?_
  split
  · exact draws_pure allOf_nil
  · exact identifier_then_draws fun _ _ name => (moreParams_draws common n).bind fun _ others =>
      draws_pure (allOf_cons.mpr ⟨name, others⟩)

theorem superclass_draws : superclass.Draws P superclassTokens := by
  refine (moves_acceptEither _ _).then_draws fun taken => ?_
  split
  · refine identifier_then_draws fun _ _ name => moves_fresh.then_draws fun _ => draws_pure ?_
    simp [superclassTokens, common.mark, name]
  · exact draws_pure allOf_nil

theorem varDecl_draws (n : Nat) : (varDecl n).Draws P Stmt.tokens := by
  refine identifier_then_draws fun _ _ name => (moves_accept _).then_draws fun taken => ?_
  split
  · refine ((exprs_draw common n).exprAt _).bind fun _ initial => (moves_expect _).then_draws fun _ => draws_pure ?_
    simp [Stmt.tokens, common.mark, common.keyword, name, initial]
  · refine (moves_expect _).then_draws fun _ => draws_pure ?_
    simp [Stmt.tokens, common.mark, common.keyword, name]

theorem optionalExpr_draws (n : Nat) (closing : Token) : (optionalExpr n closing).Draws P Expr.optTokens := by
  refine (moves_accept _).then_draws fun taken => ?_
  split
  · exact draws_pure allOf_nil
  · exact ((exprs_draw common n).exprAt _).bind fun _ value => (moves_expect _).then_draws fun _ => draws_pure value

theorem parenExpr_draws (n : Nat) : (parenExpr n).Draws P Expr.tokens :=
  (moves_expect _).then_draws fun _ => ((exprs_draw common n).exprAt _).bind fun _ value =>
    (moves_expect _).then_draws fun _ => draws_pure value

theorem exprStmt_draws (n : Nat) : (exprStmt n).Draws P Stmt.tokens := by
  refine ((exprs_draw common n).exprAt _).bind fun _ value => (moves_expect _).then_draws fun _ => draws_pure ?_
  simp [Stmt.tokens, common.mark, value]

theorem forInitial_draws (n : Nat) : (forInitial n).Draws P (·.elim [] Stmt.tokens) := by
  refine (moves_accept _).then_draws fun taken => ?_
  split
  · exact draws_pure allOf_nil
  refine (moves_accept _).then_draws fun taken => ?_
  split
  · exact (varDecl_draws common n).bind fun _ initial => draws_pure initial
  · exact (exprStmt_draws common n).bind fun _ initial => draws_pure initial

omit common in
theorem allOf_declared {s? : Option Stmt} {others : List Stmt} (first : AllOf P (s?.elim [] Stmt.tokens))
    (behind : AllOf P (Stmt.tokensAll others)) : AllOf P (Stmt.tokensAll (s?.toList ++ others)) := by
  cases s? with
  | none => exact behind
  | some s => exact allOf_append.mpr ⟨first, behind⟩

structure StmtsDraw (P : Token → Prop) (n : Nat) : Prop where
  declaration : (declaration n).Draws P (·.elim [] Stmt.tokens)
  statement : (statement n).Draws P Stmt.tokens
  declarations : (declarations n).Draws P Stmt.tokensAll
  function : (function n).Draws P FunctionDecl.tokens
  methods : (methods n).Draws P FunctionDecl.tokensAll

theorem declaration_draws (ih : StmtsDraw P n) : (declaration (n + 1)).Draws P (·.elim [] Stmt.tokens) := by
  refine Draws.recover (peek_then_draws fun token _ => ?_) (stmts_move (n + 1)).declaration
  split
  · refine moves_take.then_draws fun _ => identifier_then_draws fun _ _ name =>
      (superclass_draws common).bind fun _ use => ih.methods.braced.bind fun _ methods => draws_pure ?_
    simp [Stmt.tokens, common.mark, common.keyword, name, use, methods]
  · refine moves_take.then_draws fun _ => ih.function.bind fun _ decl => draws_pure ?_
    exact allOf_cons.mpr ⟨common.keyword _, decl⟩
  · exact moves_take.then_draws fun _ => varDecl_draws common n
  · exact ih.statement

theorem statement_draws (ih : StmtsDraw P n) : (statement (n + 1)).Draws P Stmt.tokens := by
  have exprs := exprs_draw common n
  refine peek_then_draws fun token _ => ?_
  split
  · refine moves_take.then_draws fun _ => (exprs.exprAt _).bind fun _ first => (exprs.moreItems _).bind fun _ others =>
      draws_pure ?_
    simp [Stmt.tokens, Expr.itemTokens, common.mark, common.keyword, first, others]
  · refine ih.declarations.braced.bind fun _ body => draws_pure ?_
    simp [Stmt.tokens, common.mark, body]
  · refine moves_take.then_draws fun _ => (parenExpr_draws common n).bind fun _ test =>
      ih.statement.bind fun _ consequent => (moves_accept _).then_draws fun taken => ?_
    split
    · refine ih.statement.bind fun _ alternative => draws_pure ?_
      simp [Stmt.tokens, common.mark, common.keyword, test, consequent, alternative]
    · refine draws_pure ?_
      simp [Stmt.tokens, common.mark, common.keyword, test, consequent]
  · refine moves_take.then_draws fun _ => (parenExpr_draws common n).bind fun _ test =>
      ih.statement.inLoop.bind fun _ body => draws_pure ?_
    simp [Stmt.tokens, common.mark, common.keyword, test, body]
  · refine moves_take.then_draws fun _ => (moves_expect _).then_draws fun _ =>
      (forInitial_draws common n).bind fun initial? initial => (optionalExpr_draws common n _).bind fun _ test =>
      (optionalExpr_draws common n _).bind fun _ step => ih.statement.inLoop.bind fun _ body => draws_pure ?_
    cases initial? with
    | none => simp [Stmt.tokens, common.mark, common.keyword, test, step, body]
    | some s =>
      have initial : AllOf P s.tokens := initial
      simp [Stmt.tokens, common.mark, common.keyword, initial, test, step, body]
  · refine (takeJump_moves moves_loopDepth _).then_draws fun _ => (moves_expect _).then_draws fun _ => draws_pure ?_
    simp [Stmt.tokens, common.mark, common.keyword]
  · refine (takeJump_moves moves_loopDepth _).then_draws fun _ => (moves_expect _).then_draws fun _ => draws_pure ?_
    simp [Stmt.tokens, common.mark, common.keyword]
  · refine (takeJump_moves moves_functionDepth _).then_draws fun _ =>
      (optionalExpr_draws common n _).bind fun _ value => draws_pure ?_
    simp [Stmt.tokens, common.mark, common.keyword, value]
  · exact exprStmt_draws common n

omit common in
theorem declarations_draws (ih : StmtsDraw P n) : (declarations (n + 1)).Draws P Stmt.tokensAll := by
  refine atBlockEnd_moves.then_draws fun ends => ?_
  split
  · exact draws_pure allOf_nil
  · exact ih.declaration.bind fun _ first => ih.declarations.bind fun _ others =>
      draws_pure (allOf_declared first others)

theorem function_draws (ih : StmtsDraw P n) : (function (n + 1)).Draws P FunctionDecl.tokens := by
  refine identifier_then_draws fun _ _ name => (params_draws common n).bind fun _ params =>
    ih.declarations.braced.inFunction.bind fun _ body => draws_pure ?_
  simp [FunctionDecl.tokens, common.mark, name, params, body]

omit common in
theorem methods_draws (ih : StmtsDraw P n) : (methods (n + 1)).Draws P FunctionDecl.tokensAll := by
  refine atBlockEnd_moves.then_draws fun ends => ?_
  split
  · exact draws_pure allOf_nil
  · exact ih.function.bind fun _ first => ih.methods.bind fun _ others =>
      draws_pure (allOf_append.mpr ⟨first, others⟩)

theorem stmts_draw (n : Nat) : StmtsDraw P n := by
  induction n with
  | zero => exact ⟨draws_starve, draws_starve, draws_starve, draws_starve, draws_starve⟩
  | succ n ih =>
    exact ⟨declaration_draws common ih, statement_draws common ih, declarations_draws ih, function_draws common ih,
      methods_draws ih⟩

theorem program_draws (n : Nat) : (program n).Draws P Stmt.tokensAll := by
  induction n with
  | zero => exact draws_starve
  | succ n ih =>
    refine peek_then_draws fun token _ => ?_
    split
    · exact draws_pure allOf_nil
    · exact (stmts_draw common n).declaration.bind fun _ first => ih.bind fun _ others =>
        draws_pure (allOf_declared first others)

/-- What holds of the tokens of a text holds of those of the statements that are read, diagnostics or not. -/
theorem parse_draws {nextId : Nat} {tokens : List Located} (all : ∀ l ∈ tokens, l.token ≠ .endOfInput → P l.token) :
    AllOf P (Stmt.tokensAll (parse nextId tokens).program) := by
  have ahead : (Cursor.start nextId tokens).Ahead P := by
    intro l member inside
    simp only [Cursor.start, closed] at member
    split at member
    · exact absurd (congrArg Located.token (List.mem_singleton.mp member)) inside
    split at member
    · exact all l member inside
    · rcases List.mem_append.mp member with member | last
      · exact all l member inside
      · exact absurd (congrArg Located.token (List.mem_singleton.mp last)) inside
  unfold parse
  split
  · next statements last read => exact (program_draws common _ _ ahead _ _ read).2
  · exact allOf_nil
  · exact allOf_nil

end Readers

/-! ### The expressions of a tree -/

mutual

/-- An expression and the expressions in it. -/
def Expr.parts : Expr → List Expr
  | e@(.literal _) | e@(.var _) | e@(.thisRef _ _) | e@(.superRef _ _ _) => [e]
  | e@(.group inner) => e :: inner.parts
  | e@(.unary _ operand _) => e :: operand.parts
  | e@(.binary _ left right _) => e :: (left.parts ++ right.parts)
  | e@(.conditional test consequent alternative) => e :: (test.parts ++ consequent.parts ++ alternative.parts)
  | e@(.assign _ value) => e :: value.parts
  | e@(.call callee arguments _) => e :: (callee.parts ++ Expr.partsAll arguments)
  | e@(.field object _ _) => e :: object.parts
  | e@(.setField object _ value _) => e :: (object.parts ++ value.parts)
  | e@(.array elements) => e :: Expr.partsAll elements
  | e@(.element sequence index _) => e :: (sequence.parts ++ index.parts)
  | e@(.setElement sequence index value _) => e :: (sequence.parts ++ index.parts ++ value.parts)

def Expr.partsAll : List Expr → List Expr
  | [] => []
  | e :: es => e.parts ++ Expr.partsAll es

end

mutual

/-- The expressions in a statement. The superclass of a class is one of them. -/
def Stmt.parts : Stmt → List Expr
  | .expr value => value.parts
  | .print items _ => Expr.partsAll items
  | .varDecl _ initial? _ => Expr.partsAll initial?.toList
  | .block body => Stmt.partsAll body
  | .ifElse test consequent none => test.parts ++ consequent.parts
  | .ifElse test consequent (some alternative) => test.parts ++ consequent.parts ++ alternative.parts
  | .whileLoop test body => test.parts ++ body.parts
  | .forLoop none test? step? body => Expr.partsAll test?.toList ++ Expr.partsAll step?.toList ++ body.parts
  | .forLoop (some initial) test? step? body =>
    initial.parts ++ Expr.partsAll test?.toList ++ Expr.partsAll step?.toList ++ body.parts
  | .breakLoop | .continueLoop => []
  | .funDecl decl => decl.parts
  | .returnValue value? _ => Expr.partsAll value?.toList
  | .classDecl _ superclass? methods _ => superclass?.toList.map .var ++ FunctionDecl.partsAll methods

def FunctionDecl.parts : FunctionDecl → List Expr
  | { name := _, params := _, body, line := _ } => Stmt.partsAll body

def Stmt.partsAll : List Stmt → List Expr
  | [] => []
  | s :: ss => s.parts ++ Stmt.partsAll ss

def FunctionDecl.partsAll : List FunctionDecl → List Expr
  | [] => []
  | f :: fs => f.parts ++ FunctionDecl.partsAll fs

end

/-- Expressions whose tokens all have a property. -/
def MadeOf (P : Token → Prop) (es : List Expr) : Prop :=
  ∀ e ∈ es, AllOf P e.tokens

@[simp] theorem madeOf_nil : MadeOf P [] :=
  List.forall_mem_nil _

@[simp] theorem madeOf_append {es fs : List Expr} : MadeOf P (es ++ fs) ↔ MadeOf P es ∧ MadeOf P fs :=
  List.forall_mem_append

theorem madeOf_whole {e : Expr} {es : List Expr} (whole : AllOf P e.tokens) (inside : MadeOf P es) :
    MadeOf P (e :: es) :=
  List.forall_mem_cons.mpr ⟨whole, inside⟩

mutual

theorem Expr.parts_madeOf : ∀ e : Expr, AllOf P e.tokens → MadeOf P e.parts
  | .literal _, made | .var _, made | .thisRef _ _, made | .superRef _ _ _, made => madeOf_whole made madeOf_nil
  | .group inner, made => by
    refine madeOf_whole made ?_
    simp only [Expr.tokens, List.cons_append, allOf_cons, allOf_append] at made
    exact inner.parts_madeOf made.2.1
  | .unary _ operand _, made => madeOf_whole made (operand.parts_madeOf (allOf_cons.mp made).2)
  | .binary _ left right _, made => by
    refine madeOf_whole made ?_
    simp only [Expr.tokens, allOf_cons, allOf_append] at made
    exact madeOf_append.mpr ⟨left.parts_madeOf made.1, right.parts_madeOf made.2.2⟩
  | .conditional test consequent alternative, made => by
    refine madeOf_whole made ?_
    simp only [Expr.tokens, allOf_cons, allOf_append] at made
    simp [test.parts_madeOf made.1.1, consequent.parts_madeOf made.1.2.2, alternative.parts_madeOf made.2.2]
  | .assign _ value, made => madeOf_whole made (value.parts_madeOf (allOf_cons.mp (allOf_cons.mp made).2).2)
  | .call callee arguments _, made => by
    refine madeOf_whole made ?_
    simp only [Expr.tokens, allOf_cons, allOf_append] at made
    exact madeOf_append.mpr ⟨callee.parts_madeOf made.1.1, Expr.items_madeOf arguments made.1.2.2⟩
  | .field object _ _, made => madeOf_whole made (object.parts_madeOf (allOf_append.mp made).1)
  | .setField object _ value _, made => by
    refine madeOf_whole made ?_
    simp only [Expr.tokens, allOf_cons, allOf_append] at made
    exact madeOf_append.mpr ⟨object.parts_madeOf made.1, value.parts_madeOf made.2.2.2.2⟩
  | .array elements, made => by
    refine madeOf_whole made ?_
    simp only [Expr.tokens, List.cons_append, allOf_cons, allOf_append] at made
    exact Expr.items_madeOf elements made.2.1
  | .element sequence index _, made => by
    refine madeOf_whole made ?_
    simp only [Expr.tokens, allOf_cons, allOf_append] at made
    exact madeOf_append.mpr ⟨sequence.parts_madeOf made.1.1, index.parts_madeOf made.1.2.2⟩
  | .setElement sequence index value _, made => by
    refine madeOf_whole made ?_
    simp only [Expr.tokens, allOf_cons, allOf_append] at made
    simp [sequence.parts_madeOf made.1.1, index.parts_madeOf made.1.2.2, value.parts_madeOf made.2.2.2]

theorem Expr.items_madeOf : ∀ es : List Expr, AllOf P (Expr.itemTokens es) → MadeOf P (Expr.partsAll es)
  | [], _ => madeOf_nil
  | e :: es, made =>
    madeOf_append.mpr ⟨e.parts_madeOf (allOf_append.mp made).1, Expr.more_madeOf es (allOf_append.mp made).2⟩

theorem Expr.more_madeOf : ∀ es : List Expr, AllOf P (Expr.moreTokens es) → MadeOf P (Expr.partsAll es)
  | [], _ => madeOf_nil
  | e :: es, made => by
    simp only [Expr.moreTokens, List.cons_append, allOf_cons, allOf_append] at made
    exact madeOf_append.mpr ⟨e.parts_madeOf made.2.1, Expr.more_madeOf es made.2.2⟩

end

theorem Expr.opt_madeOf (e? : Option Expr) (made : AllOf P (Expr.optTokens e?)) :
    MadeOf P (Expr.partsAll e?.toList) := by
  cases e? with
  | none => exact madeOf_nil
  | some e => exact madeOf_append.mpr ⟨e.parts_madeOf made, madeOf_nil⟩

theorem superclass_madeOf (superclass? : Option Use) (made : AllOf P (superclassTokens superclass?)) :
    MadeOf P (superclass?.toList.map .var) := by
  cases superclass? with
  | none => exact madeOf_nil
  | some use => exact madeOf_whole (allOf_cons.mp made).2 madeOf_nil

mutual

theorem Stmt.parts_madeOf : ∀ s : Stmt, AllOf P s.tokens → MadeOf P s.parts
  | .expr value, made => value.parts_madeOf (allOf_append.mp made).1
  | .print items _, made => by
    simp only [Stmt.tokens, List.cons_append, allOf_cons, allOf_append] at made
    exact Expr.items_madeOf items made.2.1
  | .varDecl _ none _, _ => madeOf_nil
  | .varDecl _ (some initial) _, made => by
    simp only [Stmt.tokens, List.cons_append, allOf_cons, allOf_append] at made
    exact Expr.opt_madeOf (some initial) made.2.2.2.1
  | .block body, made => by
    simp only [Stmt.tokens, List.cons_append, allOf_cons, allOf_append] at made
    exact Stmt.all_madeOf body made.2.1
  | .ifElse test consequent none, made => by
    simp only [Stmt.tokens, List.cons_append, allOf_cons, allOf_append] at made
    exact madeOf_append.mpr ⟨test.parts_madeOf made.2.2.1, consequent.parts_madeOf made.2.2.2.2⟩
  | .ifElse test consequent (some alternative), made => by
    simp only [Stmt.tokens, List.cons_append, List.append_assoc, allOf_cons, allOf_append] at made
    simp [Stmt.parts, test.parts_madeOf made.2.2.1, consequent.parts_madeOf made.2.2.2.2.1,
      alternative.parts_madeOf made.2.2.2.2.2.2]
  | .whileLoop test body, made => by
    simp only [Stmt.tokens, List.cons_append, allOf_cons, allOf_append] at made
    exact madeOf_append.mpr ⟨test.parts_madeOf made.2.2.1, body.parts_madeOf made.2.2.2.2⟩
  | .forLoop none test? step? body, made => by
    simp only [Stmt.tokens, List.cons_append, List.append_assoc, allOf_cons, allOf_append] at made
    obtain ⟨-, -, -, test, -, step, -, inside⟩ := made
    simp [Stmt.parts, Expr.opt_madeOf test? test, Expr.opt_madeOf step? step, body.parts_madeOf inside]
  | .forLoop (some initial) test? step? body, made => by
    simp only [Stmt.tokens, List.cons_append, List.append_assoc, allOf_cons, allOf_append] at made
    obtain ⟨-, -, first, test, -, step, -, inside⟩ := made
    simp [Stmt.parts, initial.parts_madeOf first, Expr.opt_madeOf test? test, Expr.opt_madeOf step? step,
      body.parts_madeOf inside]
  | .breakLoop, _ | .continueLoop, _ => madeOf_nil
  | .funDecl decl, made => decl.parts_madeOf (allOf_cons.mp made).2
  | .returnValue value? _, made => by
    simp only [Stmt.tokens, List.cons_append, allOf_cons, allOf_append] at made
    exact Expr.opt_madeOf value? made.2.1
  | .classDecl _ superclass? methods _, made => by
    simp only [Stmt.tokens, List.cons_append, List.append_assoc, allOf_cons, allOf_append] at made
    obtain ⟨-, -, use, -, inside, -⟩ := made
    exact madeOf_append.mpr ⟨superclass_madeOf superclass? use, FunctionDecl.all_madeOf methods inside⟩

theorem FunctionDecl.parts_madeOf : ∀ f : FunctionDecl, AllOf P f.tokens → MadeOf P f.parts
  | { name := _, params := _, body, line := _ }, made => by
    simp only [FunctionDecl.tokens, List.cons_append, List.append_assoc, allOf_cons, allOf_append] at made
    obtain ⟨-, -, -, -, -, inside, -⟩ := made
    exact Stmt.all_madeOf body inside

theorem Stmt.all_madeOf : ∀ ss : List Stmt, AllOf P (Stmt.tokensAll ss) → MadeOf P (Stmt.partsAll ss)
  | [], _ => madeOf_nil
  | s :: ss, made =>
    madeOf_append.mpr ⟨s.parts_madeOf (allOf_append.mp made).1, Stmt.all_madeOf ss (allOf_append.mp made).2⟩

theorem FunctionDecl.all_madeOf : ∀ fs : List FunctionDecl,
    AllOf P (FunctionDecl.tokensAll fs) → MadeOf P (FunctionDecl.partsAll fs)
  | [], _ => madeOf_nil
  | f :: fs, made =>
    madeOf_append.mpr ⟨f.parts_madeOf (allOf_append.mp made).1, FunctionDecl.all_madeOf fs (allOf_append.mp made).2⟩

end

end Lox
