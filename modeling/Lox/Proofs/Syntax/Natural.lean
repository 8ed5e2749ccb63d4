import Lox.Proofs.Syntax.Depth
import Lox.Proofs.Syntax.Relabel

/-!
Readers and relabelings. A reader carries ids, lines and names from the tokens into the tree and never
looks at them: with other lines and names in the tokens, and from another id on, it reads the same phrase
with those lines, names and ids, and reports the same errors there.
-/

namespace Lox

open Parse

section Words

variable (φ : Relabeling)

/-! ### Tokens and errors -/

def Token.relabel : Token → Token
  | .identifier name => .identifier (φ.name name)
  | token => token

def Located.relabel (l : Located) : Located :=
  ⟨l.token.relabel φ, φ.line l.line⟩

def StaticError.relabel : StaticError → StaticError
  | .unexpectedToken found expected => .unexpectedToken (found.relabel φ) (expected.relabel φ)
  | .ownInitializer name => .ownInitializer (φ.name name)
  | .alreadyDeclared name => .alreadyDeclared (φ.name name)
  | error => error

def Diagnostic.relabel (d : Diagnostic) : Diagnostic :=
  ⟨φ.line d.line, d.token?.map (Token.relabel φ), d.error.relabel φ⟩

def Cursor.relabel (c : Cursor) : Cursor :=
  ⟨c.rest.map (Located.relabel φ), φ.id c.nextId, c.loops, c.functions, c.diagnostics.map (Diagnostic.relabel φ)⟩

def Reply.relabel {α β : Type} (f : α → β) : Reply α → Reply β
  | .ok value next => .ok (f value) (next.relabel φ)
  | .failed error next => .failed (error.relabel φ) (next.relabel φ)
  | .starved => .starved

end Words

/-- A token that is no name is the same token with other names. -/
theorem Token.relabel_eq_iff {φ : Relabeling} {t u : Token} (other : ∀ name, u ≠ .identifier name) :
    t.relabel φ = u ↔ t = u := by
  cases t with
  | identifier name =>
    refine iff_of_false (fun same => ?_) fun same => ?_
    · exact other _ same.symm
    · exact other _ same.symm
  | _ => exact Iff.rfl

theorem Token.of_relabel {φ : Relabeling} {t u : Token} (same : t.relabel φ = u)
    (other : ∀ name, u ≠ .identifier name) : t = u :=
  (Token.relabel_eq_iff other).mp same

/-! ### Cursors -/

/-- There is an end of the input ahead. -/
def Cursor.Ends (c : Cursor) : Prop :=
  ∃ l ∈ c.rest, l.token = .endOfInput

theorem Cursor.Ends.onward {c next : Cursor} (ends : c.Ends) (moved : c.Onward next) : next.Ends := by
  obtain ⟨l, member, last⟩ := ends
  obtain ⟨ls, split, inside⟩ := moved.passed
  rw [split] at member
  rcases List.mem_append.mp member with passed | ahead
  · exact absurd last (inside l passed)
  · exact ⟨l, ahead, last⟩

section Cursors

variable {φ : Relabeling} {c : Cursor}

theorem Cursor.relabel_here (ends : c.Ends) : (c.relabel φ).here = c.here.relabel φ := by
  obtain ⟨l, member, -⟩ := ends
  unfold Cursor.here Cursor.relabel
  cases rest : c.rest with
  | nil =>
    rw [rest] at member
    cases member
  | cons here rest => rfl

theorem Cursor.relabel_here_token (c : Cursor) : (c.relabel φ).here.token = c.here.token.relabel φ := by
  unfold Cursor.here Cursor.relabel
  cases c.rest <;> rfl

theorem Cursor.relabel_advance (c : Cursor) : (c.relabel φ).advance = c.advance.relabel φ := by
  have atEnd : (c.relabel φ).here.token = .endOfInput ↔ c.here.token = .endOfInput := by
    rw [c.relabel_here_token]
    exact Token.relabel_eq_iff (by simp)
  unfold Cursor.advance
  split
  · next last => rw [if_pos (atEnd.mp last)]
  · next inside =>
    rw [if_neg fun last => inside (atEnd.mpr last)]
    simp only [relabel, List.map_tail]

theorem Cursor.relabel_report (c : Cursor) (d : Diagnostic) :
    (c.relabel φ).report (d.relabel φ) = (c.report d).relabel φ := by
  simp only [relabel, report, List.map_append, List.map_cons, List.map_nil]

theorem Token.relabel_startsStatement (t : Token) : (t.relabel φ).startsStatement = t.startsStatement := by
  cases t <;> rfl

theorem nextStatement_relabel (last : Token) (ts : List Located) :
    nextStatement (last.relabel φ) (ts.map (Located.relabel φ)) =
      (nextStatement last ts).map (Located.relabel φ) := by
  induction ts generalizing last with
  | nil => rfl
  | cons t rest ih =>
    have stops : ((t.relabel φ).token = .endOfInput || last.relabel φ = .mark .semicolon ||
        (t.relabel φ).token.startsStatement) =
        (t.token = .endOfInput || last = .mark .semicolon || t.token.startsStatement) := by
      rw [Located.relabel, Token.relabel_startsStatement]
      congr 2
      · exact decide_eq_decide.mpr (Token.relabel_eq_iff (by simp))
      · exact decide_eq_decide.mpr (Token.relabel_eq_iff (by simp))
    rw [List.map_cons, nextStatement, nextStatement, stops]
    split
    · rfl
    · exact ih t.token

theorem Cursor.relabel_synchronize (c : Cursor) :
    (c.relabel φ).synchronize = c.synchronize.relabel φ := by
  unfold Cursor.synchronize
  rw [c.relabel_advance, c.relabel_here_token]
  have next := nextStatement_relabel (φ := φ) c.here.token c.advance.rest
  simp only [relabel] at next ⊢
  rw [next]

end Cursors

/-! ### Readers -/

/-- With other ids, lines and names in front of it, a reader gives what the given one gives with those. -/
structure Parse.Natural {α β : Type} (φ : Relabeling) (f : α → β) (p : Parse α) (q : Parse β) : Prop where
  moves : p.Moves
  image : ∀ c : Cursor, c.Ends → q (c.relabel φ) = (p c).relabel φ f

namespace Parse

variable {φ : Relabeling} {α α' β β' : Type} {f : α → α'} {g : β → β'}

theorem Natural.bind {p : Parse α} {q : Parse α'} {k : α → Parse β} {l : α' → Parse β'}
    (first : Natural φ f p q) (second : ∀ a, Natural φ g (k a) (l (f a))) :
    Natural φ g (p >>= k) (q >>= l) where
  moves := first.moves.bind fun a => (second a).moves
  image c ends := by
    change Parse.bind q l (c.relabel φ) = (Parse.bind p k c).relabel φ g
    unfold Parse.bind
    rw [first.image c ends]
    cases read : p c with
    | ok a next => exact (second a).image next (ends.onward (first.moves.ok read))
    | failed error next => rfl
    | starved => rfl

theorem natural_pure {a : α} {b : α'} (same : b = f a) : Natural φ f (pure a) (pure b) where
  moves := moves_pure a
  image c _ := by
    subst same
    rfl

theorem natural_starve : Natural φ f starve starve :=
  ⟨moves_starve, fun _ _ => rfl⟩

theorem natural_fail (error : StaticError) : Natural φ f (fail error) (fail (error.relabel φ)) where
  moves := moves_fail error
  image c ends := by
    unfold fail
    rw [Cursor.relabel_here ends]
    rfl

theorem natural_peek : Natural φ (Token.relabel φ) peek peek where
  moves := moves_peek
  image c _ := by
    unfold peek
    rw [c.relabel_here_token]
    rfl

theorem natural_take : Natural φ (Located.relabel φ) take take where
  moves := moves_take
  image c ends := by
    unfold take
    rw [Cursor.relabel_here ends, c.relabel_advance]
    rfl

theorem natural_report (spot : Located) (error : StaticError) :
    Natural φ id (report spot error) (report (spot.relabel φ) (error.relabel φ)) where
  moves := moves_report spot error
  image c _ := by
    unfold report
    rw [show Diagnostic.at (spot.relabel φ) (error.relabel φ) = (Diagnostic.at spot error).relabel φ from rfl,
      c.relabel_report]
    rfl

section Tokens

variable {token other : Token} (plain : ∀ name, token ≠ .identifier name)
include plain

theorem here_relabel_iff (c : Cursor) : (c.relabel φ).here.token = token ↔ c.here.token = token := by
  rw [c.relabel_here_token]
  exact Token.relabel_eq_iff plain

theorem natural_accept : Natural φ id (accept token) (accept token) where
  moves := moves_accept token
  image c _ := by
    unfold accept
    by_cases same : c.here.token = token
    · rw [if_pos same, if_pos ((here_relabel_iff plain c).mpr same), c.relabel_advance]
      rfl
    · rw [if_neg same, if_neg fun h => same ((here_relabel_iff plain c).mp h)]
      rfl

theorem natural_acceptEither (plain' : ∀ name, other ≠ .identifier name) :
    Natural φ id (acceptEither token other) (acceptEither token other) where
  moves := moves_acceptEither token other
  image c _ := by
    have either : ((c.relabel φ).here.token = token ∨ (c.relabel φ).here.token = other) ↔
        (c.here.token = token ∨ c.here.token = other) :=
      or_congr (here_relabel_iff plain c) (here_relabel_iff plain' c)
    unfold acceptEither
    by_cases same : c.here.token = token ∨ c.here.token = other
    · rw [if_pos same, if_pos (either.mpr same), c.relabel_advance]
      rfl
    · rw [if_neg same, if_neg fun h => same (either.mp h)]
      rfl

theorem natural_expect : Natural φ id (expect token) (expect token) where
  moves := moves_expect token
  image c ends := by
    have kept : token.relabel φ = token := (Token.relabel_eq_iff plain).mpr rfl
    unfold expect
    by_cases same : c.here.token = token
    · rw [if_pos same, if_pos ((here_relabel_iff plain c).mpr same), c.relabel_advance]
      rfl
    · rw [if_neg same, if_neg fun h => same ((here_relabel_iff plain c).mp h), Cursor.relabel_here ends]
      simp only [Reply.relabel, Diagnostic.relabel, Diagnostic.at, StaticError.relabel, Located.relabel,
        Option.map_some, kept]

end Tokens

theorem natural_identifier :
    Natural φ (fun found => (φ.name found.1, φ.line found.2)) identifier identifier where
  moves := moves_identifier
  image c ends := by
    unfold identifier
    rw [Cursor.relabel_here ends, c.relabel_advance]
    cases same : c.here.token with
    | identifier name => simp only [Located.relabel, same, Token.relabel, Reply.relabel]
    | _ =>
      simp only [Located.relabel, same, Token.relabel, Reply.relabel, Diagnostic.relabel, Diagnostic.at,
        StaticError.relabel, Option.map_some]

theorem natural_loopDepth : Natural φ id loopDepth loopDepth :=
  ⟨moves_loopDepth, fun _ _ => rfl⟩

theorem natural_functionDepth : Natural φ id functionDepth functionDepth :=
  ⟨moves_functionDepth, fun _ _ => rfl⟩

end Parse

/-- Ids still count on from each other. -/
def Relabeling.Counts (φ : Relabeling) : Prop :=
  ∀ id, φ.id (id + 1) = φ.id id + 1

section Readers

variable {φ : Relabeling} {α β : Type} {n : Nat} {p : Parse α} {q : Parse β} {f : α → β}

namespace Parse

theorem natural_fresh (counts : φ.Counts) : Natural φ φ.id fresh fresh where
  moves := moves_fresh
  image c _ := by
    change Reply.ok (φ.id c.nextId) { c.relabel φ with nextId := φ.id c.nextId + 1 } = _
    rw [← counts]
    rfl

theorem Natural.inLoop (body : Natural φ f p q) : Natural φ f (inLoop p) (inLoop q) where
  moves := body.moves.inLoop
  image c ends := by
    have inner := body.image { c with loops := c.loops + 1 } ends
    unfold Parse.inLoop
    refine (congrArg (Reply.nest c.loops c.functions) inner).trans ?_
    cases p { c with loops := c.loops + 1 } <;> rfl

theorem Natural.inFunction (body : Natural φ f p q) : Natural φ f (inFunction p) (inFunction q) where
  moves := body.moves.inFunction
  image c ends := by
    have inner := body.image { c with loops := 0, functions := c.functions + 1 } ends
    unfold Parse.inFunction
    refine (congrArg (Reply.nest c.loops c.functions) inner).trans ?_
    cases p { c with loops := 0, functions := c.functions + 1 } <;> rfl

theorem Natural.braced (body : Natural φ f p q) : Natural φ f (braced p) (braced q) :=
  (natural_expect (by simp)).bind fun _ => body.bind fun _ => (natural_expect (by simp)).bind fun _ =>
    natural_pure rfl

theorem Natural.recover (body : Natural φ f p q) : Natural φ (Option.map f) (recover p) (recover q) where
  moves := body.moves.recover
  image c ends := by
    unfold Parse.recover
    rw [body.image c ends]
    cases p c with
    | ok a next => rfl
    | failed error next =>
      simp only [Reply.relabel]
      rw [Cursor.relabel_report, Cursor.relabel_synchronize]
      rfl
    | starved => rfl

end Parse

theorem Level.operator?_relabel (level : Level) (token : Token) :
    level.operator? (token.relabel φ) = level.operator? token := by
  cases token <;> rfl

theorem Expr.assigned?_relabel (target value : Expr) :
    (target.relabel φ).assigned? (value.relabel φ) = (target.assigned? value).map (Expr.relabel φ) := by
  cases target <;> rfl

structure ExprsNatural (φ : Relabeling) (n : Nat) : Prop where
  exprAt : ∀ level, Natural φ (Expr.relabel φ) (exprAt n level) (exprAt n level)
  operationsOn : ∀ level left,
    Natural φ (Expr.relabel φ) (operationsOn n level left) (operationsOn n level (left.relabel φ))
  suffixesOf : ∀ object, Natural φ (Expr.relabel φ) (suffixesOf n object) (suffixesOf n (object.relabel φ))
  items : ∀ closing, (∀ name, closing ≠ .identifier name) →
    Natural φ (Expr.relabelAll φ) (items n closing) (items n closing)
  moreItems : ∀ closing, (∀ name, closing ≠ .identifier name) →
    Natural φ (Expr.relabelAll φ) (moreItems n closing) (moreItems n closing)
  primary : Natural φ (Expr.relabel φ) (primary n) (primary n)

theorem items_natural (ih : ExprsNatural φ n) {closing : Token} (plain : ∀ name, closing ≠ .identifier name) :
    Natural φ (Expr.relabelAll φ) (items (n + 1) closing) (items (n + 1) closing) := by
  refine (natural_accept plain).bind fun taken => ?_
  cases taken with
  | true => exact natural_pure rfl
  | false =>
    exact (ih.exprAt _).bind fun _ => (ih.moreItems _ plain).bind fun _ => natural_pure rfl

theorem moreItems_natural (ih : ExprsNatural φ n) {closing : Token}
    (plain : ∀ name, closing ≠ .identifier name) :
    Natural φ (Expr.relabelAll φ) (moreItems (n + 1) closing) (moreItems (n + 1) closing) := by
  refine (natural_accept (by simp)).bind fun taken => ?_
  cases taken with
  | true => exact (ih.exprAt _).bind fun _ => (ih.moreItems _ plain).bind fun _ => natural_pure rfl
  | false => exact (natural_expect plain).bind fun _ => natural_pure rfl

theorem operationsOn_natural (ih : ExprsNatural φ n) (level : Level) (left : Expr) :
    Natural φ (Expr.relabel φ) (operationsOn (n + 1) level left)
      (operationsOn (n + 1) level (left.relabel φ)) := by
  refine natural_peek.bind fun token => ?_
  rw [level.operator?_relabel]
  cases level.operator? token with
  | some op => exact natural_take.bind fun _ => (ih.exprAt _).bind fun _ => ih.operationsOn _ _
  | none => exact natural_pure rfl

theorem suffixesOf_natural (ih : ExprsNatural φ n) (object : Expr) :
    Natural φ (Expr.relabel φ) (suffixesOf (n + 1) object) (suffixesOf (n + 1) (object.relabel φ)) := by
  refine natural_peek.bind fun token => ?_
  split
  · exact natural_take.bind fun _ => (ih.items _ (by simp)).bind fun _ => ih.suffixesOf _
  · exact natural_take.bind fun _ => natural_identifier.bind fun _ => ih.suffixesOf _
  · exact natural_take.bind fun _ => (ih.exprAt _).bind fun _ => (natural_expect (by simp)).bind fun _ =>
      ih.suffixesOf _
  · next noCall noField noElement =>
    split
    · next same => exact absurd (Token.of_relabel same (by simp)) noCall
    · next same => exact absurd (Token.of_relabel same (by simp)) noField
    · next same => exact absurd (Token.of_relabel same (by simp)) noElement
    · exact natural_pure rfl

theorem Literal.ofToken?_relabel (token : Token) : Literal.ofToken? (token.relabel φ) = Literal.ofToken? token := by
  cases token <;> rfl

theorem UnaryOp.ofToken?_relabel (token : Token) : UnaryOp.ofToken? (token.relabel φ) = UnaryOp.ofToken? token := by
  cases token <;> rfl

theorem primary_natural (counts : φ.Counts) (ih : ExprsNatural φ n) :
    Natural φ (Expr.relabel φ) (primary (n + 1)) (primary (n + 1)) := by
  refine natural_peek.bind fun token => ?_
  rw [Literal.ofToken?_relabel]
  cases Literal.ofToken? token with
  | some value => exact natural_take.bind fun _ => natural_pure rfl
  | none =>
    dsimp only
    split
    · exact natural_take.bind fun _ => (natural_fresh counts).bind fun _ => natural_pure rfl
    · exact natural_take.bind fun _ => (natural_fresh counts).bind fun _ => natural_pure rfl
    · exact natural_take.bind fun _ => (natural_expect (by simp)).bind fun _ => natural_identifier.bind fun _ =>
        (natural_fresh counts).bind fun _ => natural_pure rfl
    · exact natural_take.bind fun _ => (ih.exprAt _).bind fun _ => (natural_expect (by simp)).bind fun _ =>
        natural_pure rfl
    · exact natural_take.bind fun _ => (ih.items _ (by simp)).bind fun _ => natural_pure rfl
    · next noName noThis noSuper noGroup noArray =>
      split
      · next name same =>
        cases token with
        | identifier other => exact absurd rfl (noName other)
        | _ => cases same
      · next same => exact absurd (Token.of_relabel same (by simp)) noThis
      · next same => exact absurd (Token.of_relabel same (by simp)) noSuper
      · next same => exact absurd (Token.of_relabel same (by simp)) noGroup
      · next same => exact absurd (Token.of_relabel same (by simp)) noArray
      · exact natural_fail _

theorem assignment_natural (ih : ExprsNatural φ n) :
    Natural φ (Expr.relabel φ) (exprAt (n + 1) .assignment) (exprAt (n + 1) .assignment) := by
  refine (ih.exprAt _).bind fun target => natural_peek.bind fun token => ?_
  by_cases same : token = .mark .equal
  · rw [if_pos same, if_pos ((Token.relabel_eq_iff (by simp)).mpr same)]
    refine natural_take.bind fun spot => (ih.exprAt _).bind fun value => ?_
    rw [Expr.assigned?_relabel]
    cases target.assigned? value with
    | some assignment => exact natural_pure rfl
    | none => exact (natural_report _ _).bind fun _ => natural_pure rfl
  · rw [if_neg same, if_neg fun h => same (Token.of_relabel h (by simp))]
    exact natural_pure rfl

theorem conditional_natural (ih : ExprsNatural φ n) :
    Natural φ (Expr.relabel φ) (exprAt (n + 1) .conditional) (exprAt (n + 1) .conditional) := by
  refine (ih.exprAt _).bind fun test => (natural_accept (by simp)).bind fun taken => ?_
  cases taken with
  | true =>
    exact (ih.exprAt _).bind fun _ => (natural_expect (by simp)).bind fun _ => (ih.exprAt _).bind fun _ =>
      natural_pure rfl
  | false => exact natural_pure rfl

theorem unary_natural (ih : ExprsNatural φ n) :
    Natural φ (Expr.relabel φ) (exprAt (n + 1) .unary) (exprAt (n + 1) .unary) := by
  refine natural_peek.bind fun token => ?_
  rw [UnaryOp.ofToken?_relabel]
  cases UnaryOp.ofToken? token with
  | some op => exact natural_take.bind fun _ => (ih.exprAt _).bind fun _ => natural_pure rfl
  | none => exact ih.exprAt _

theorem exprs_natural (counts : φ.Counts) (n : Nat) : ExprsNatural φ n := by
  induction n with
  | zero =>
    exact ⟨fun _ => natural_starve, fun _ _ => natural_starve, fun _ => natural_starve,
      fun _ _ => natural_starve, fun _ _ => natural_starve, natural_starve⟩
  | succ n ih =>
    refine ⟨fun level => ?_, operationsOn_natural ih, suffixesOf_natural ih, fun _ => items_natural ih,
      fun _ => moreItems_natural ih, primary_natural counts ih⟩
    cases level with
    | assignment => exact assignment_natural ih
    | conditional => exact conditional_natural ih
    | unary => exact unary_natural ih
    | suffix => exact (ih.exprAt _).bind fun _ => ih.suffixesOf _
    | primary => exact ih.primary
    | _ => exact (ih.exprAt _).bind fun _ => ih.operationsOn _ _

/-! ### Statements -/

theorem moreParams_natural (n : Nat) : Natural φ (List.map φ.name) (moreParams n) (moreParams n) := by
  induction n with
  | zero => exact natural_starve
  | succ n ih =>
    refine (natural_accept (by simp)).bind fun taken => ?_
    cases taken with
    | true => exact natural_identifier.bind fun _ => ih.bind fun _ => natural_pure rfl
    | false => exact (natural_expect (by simp)).bind fun _ => natural_pure rfl

theorem params_natural (n : Nat) : Natural φ (List.map φ.name) (params n) (params n) := by
  refine (natural_expect (by simp)).bind fun _ => (natural_accept (by simp)).bind fun taken => ?_
  cases taken with
  | true => exact natural_pure rfl
  | false => exact natural_identifier.bind fun _ => (moreParams_natural n).bind fun _ => natural_pure rfl

theorem superclass_natural (counts : φ.Counts) :
    Natural φ (Option.map (Use.relabel φ)) superclass superclass := by
  refine (natural_acceptEither (by simp) (by simp)).bind fun taken => ?_
  cases taken with
  | true => exact natural_identifier.bind fun _ => (natural_fresh counts).bind fun _ => natural_pure rfl
  | false => exact natural_pure rfl

theorem takeJump_natural {depth : Parse Nat} (reads : Natural φ id depth depth) {error : StaticError}
    (plain : error.relabel φ = error) :
    Natural φ (Located.relabel φ) (takeJump depth error) (takeJump depth error) := by
  refine natural_take.bind fun spot => reads.bind fun found => ?_
  change Natural φ _ _ (if found = 0 then _ else _)
  split
  · have reports := natural_report (φ := φ) spot error
    rw [plain] at reports
    exact reports.bind fun _ => natural_pure rfl
  · exact natural_pure rfl

theorem atBlockEnd_natural : Natural φ id atBlockEnd atBlockEnd := by
  refine natural_peek.bind fun token => natural_pure ?_
  congr 1
  · exact decide_eq_decide.mpr (Token.relabel_eq_iff (by simp))
  · exact decide_eq_decide.mpr (Token.relabel_eq_iff (by simp))

section Clauses

variable (counts : φ.Counts)
include counts

theorem varDecl_natural (n : Nat) : Natural φ (Stmt.relabel φ) (varDecl n) (varDecl n) := by
  refine natural_identifier.bind fun found => (natural_accept (by simp)).bind fun taken => ?_
  cases taken with
  | true =>
    exact ((exprs_natural counts n).exprAt _).bind fun _ => (natural_expect (by simp)).bind fun _ =>
      natural_pure rfl
  | false => exact (natural_expect (by simp)).bind fun _ => natural_pure rfl

theorem optionalExpr_natural (n : Nat) {closing : Token} (plain : ∀ name, closing ≠ .identifier name) :
    Natural φ (Option.map (Expr.relabel φ)) (optionalExpr n closing) (optionalExpr n closing) := by
  refine (natural_accept plain).bind fun taken => ?_
  cases taken with
  | true => exact natural_pure rfl
  | false =>
    exact ((exprs_natural counts n).exprAt _).bind fun _ => (natural_expect plain).bind fun _ =>
      natural_pure rfl

theorem parenExpr_natural (n : Nat) : Natural φ (Expr.relabel φ) (parenExpr n) (parenExpr n) :=
  (natural_expect (by simp)).bind fun _ => ((exprs_natural counts n).exprAt _).bind fun _ =>
    (natural_expect (by simp)).bind fun _ => natural_pure rfl

theorem exprStmt_natural (n : Nat) : Natural φ (Stmt.relabel φ) (exprStmt n) (exprStmt n) :=
  ((exprs_natural counts n).exprAt _).bind fun _ => (natural_expect (by simp)).bind fun _ =>
    natural_pure rfl

theorem forInitial_natural (n : Nat) :
    Natural φ (Option.map (Stmt.relabel φ)) (forInitial n) (forInitial n) := by
  refine (natural_accept (by simp)).bind fun taken => ?_
  cases taken with
  | true => exact natural_pure rfl
  | false =>
    refine (natural_accept (by simp)).bind fun taken => ?_
    cases taken with
    | true => exact (varDecl_natural counts n).bind fun _ => natural_pure rfl
    | false => exact (exprStmt_natural counts n).bind fun _ => natural_pure rfl

end Clauses

structure StmtsNatural (φ : Relabeling) (n : Nat) : Prop where
  declaration : Natural φ (Option.map (Stmt.relabel φ)) (declaration n) (declaration n)
  statement : Natural φ (Stmt.relabel φ) (statement n) (statement n)
  declarations : Natural φ (Stmt.relabelAll φ) (declarations n) (declarations n)
  function : Natural φ (FunctionDecl.relabel φ) (function n) (function n)
  methods : Natural φ (FunctionDecl.relabelAll φ) (methods n) (methods n)

theorem declaration_natural (counts : φ.Counts) (ih : StmtsNatural φ n) :
    Natural φ (Option.map (Stmt.relabel φ)) (declaration (n + 1)) (declaration (n + 1)) := by
  refine Natural.recover (natural_peek.bind fun token => ?_)
  split
  · exact natural_take.bind fun _ => natural_identifier.bind fun _ => (superclass_natural counts).bind fun _ =>
      ih.methods.braced.bind fun _ => natural_pure rfl
  · exact natural_take.bind fun _ => ih.function.bind fun _ => natural_pure rfl
  · exact natural_take.bind fun _ => varDecl_natural counts n
  · next noClass noFun noVar =>
    split
    · next same => exact absurd (Token.of_relabel same (by simp)) noClass
    · next same => exact absurd (Token.of_relabel same (by simp)) noFun
    · next same => exact absurd (Token.of_relabel same (by simp)) noVar
    · exact ih.statement

theorem statement_natural (counts : φ.Counts) (ih : StmtsNatural φ n) :
    Natural φ (Stmt.relabel φ) (statement (n + 1)) (statement (n + 1)) := by
  have exprs := exprs_natural counts n
  refine natural_peek.bind fun token => ?_
  split
  · exact natural_take.bind fun _ => (exprs.exprAt _).bind fun _ => (exprs.moreItems _ (by simp)).bind fun _ =>
      natural_pure rfl
  · exact ih.declarations.braced.bind fun _ => natural_pure rfl
  · refine natural_take.bind fun _ => (parenExpr_natural counts n).bind fun _ => ih.statement.bind fun _ =>
      (natural_accept (by simp)).bind fun taken => ?_
    cases taken with
    | true => exact ih.statement.bind fun _ => natural_pure rfl
    | false => exact natural_pure rfl
  · exact natural_take.bind fun _ => (parenExpr_natural counts n).bind fun _ =>
      ih.statement.inLoop.bind fun _ => natural_pure rfl
  · exact natural_take.bind fun _ => (natural_expect (by simp)).bind fun _ =>
      (forInitial_natural counts n).bind fun _ => (optionalExpr_natural counts n (by simp)).bind fun _ =>
      (optionalExpr_natural counts n (by simp)).bind fun _ => ih.statement.inLoop.bind fun _ =>
      natural_pure (Stmt.forLoop_relabel φ _ _ _ _).symm
  · exact (takeJump_natural natural_loopDepth rfl).bind fun _ => (natural_expect (by simp)).bind fun _ =>
      natural_pure rfl
  · exact (takeJump_natural natural_loopDepth rfl).bind fun _ => (natural_expect (by simp)).bind fun _ =>
      natural_pure rfl
  · exact (takeJump_natural natural_functionDepth rfl).bind fun _ =>
      (optionalExpr_natural counts n (by simp)).bind fun _ => natural_pure rfl
  · next noPrint noBlock noIf noWhile noFor noBreak noContinue noReturn =>
    split
    · next same => exact absurd (Token.of_relabel same (by simp)) noPrint
    · next same => exact absurd (Token.of_relabel same (by simp)) noBlock
    · next same => exact absurd (Token.of_relabel same (by simp)) noIf
    · next same => exact absurd (Token.of_relabel same (by simp)) noWhile
    · next same => exact absurd (Token.of_relabel same (by simp)) noFor
    · next same => exact absurd (Token.of_relabel same (by simp)) noBreak
    · next same => exact absurd (Token.of_relabel same (by simp)) noContinue
    · next same => exact absurd (Token.of_relabel same (by simp)) noReturn
    · exact exprStmt_natural counts n

theorem relabelAll_toList_append (s? : Option Stmt) (ss : List Stmt) :
    (s?.map (Stmt.relabel φ)).toList ++ Stmt.relabelAll φ ss = Stmt.relabelAll φ (s?.toList ++ ss) := by
  cases s? <;> rfl

theorem declarations_natural (ih : StmtsNatural φ n) :
    Natural φ (Stmt.relabelAll φ) (declarations (n + 1)) (declarations (n + 1)) := by
  refine atBlockEnd_natural.bind fun ends => ?_
  cases ends with
  | true => exact natural_pure rfl
  | false =>
    exact ih.declaration.bind fun _ => ih.declarations.bind fun _ => natural_pure (relabelAll_toList_append _ _)

theorem function_natural (ih : StmtsNatural φ n) :
    Natural φ (FunctionDecl.relabel φ) (function (n + 1)) (function (n + 1)) :=
  natural_identifier.bind fun _ => (params_natural n).bind fun _ =>
    ih.declarations.braced.inFunction.bind fun _ => natural_pure rfl

theorem methods_natural (ih : StmtsNatural φ n) :
    Natural φ (FunctionDecl.relabelAll φ) (methods (n + 1)) (methods (n + 1)) := by
  refine atBlockEnd_natural.bind fun ends => ?_
  cases ends with
  | true => exact natural_pure rfl
  | false => exact ih.function.bind fun _ => ih.methods.bind fun _ => natural_pure rfl

theorem stmts_natural (counts : φ.Counts) (n : Nat) : StmtsNatural φ n := by
  induction n with
  | zero => exact ⟨natural_starve, natural_starve, natural_starve, natural_starve, natural_starve⟩
  | succ n ih =>
    exact ⟨declaration_natural counts ih, statement_natural counts ih, declarations_natural ih,
      function_natural ih, methods_natural ih⟩

theorem program_natural (counts : φ.Counts) (n : Nat) :
    Natural φ (Stmt.relabelAll φ) (program n) (program n) := by
  induction n with
  | zero => exact natural_starve
  | succ n ih =>
    refine natural_peek.bind fun token => ?_
    by_cases last : token = .endOfInput
    · rw [if_pos last, if_pos ((Token.relabel_eq_iff (by simp)).mpr last)]
      exact natural_pure rfl
    · rw [if_neg last, if_neg fun h => last (Token.of_relabel h (by simp))]
      exact (stmts_natural counts n).declaration.bind fun _ => ih.bind fun _ =>
        natural_pure (relabelAll_toList_append _ _)

end Readers

section Kept

variable {φ : Relabeling} (names : φ.KeepsNames) (lines : ∀ line, φ.line line = line)
include names

theorem Token.relabel_kept (t : Token) : t.relabel φ = t := by
  cases t with
  | identifier name => exact congrArg Token.identifier (names name)
  | _ => rfl

theorem StaticError.relabel_kept (error : StaticError) : error.relabel φ = error := by
  cases error with
  | unexpectedToken found expected =>
    rw [StaticError.relabel, Token.relabel_kept names, Token.relabel_kept names]
  | ownInitializer name => exact congrArg StaticError.ownInitializer (names name)
  | alreadyDeclared name => exact congrArg StaticError.alreadyDeclared (names name)
  | _ => rfl

include lines

theorem Located.relabel_kept (l : Located) : l.relabel φ = l := by
  rw [Located.relabel, Token.relabel_kept names, lines]

theorem Diagnostic.relabel_kept (d : Diagnostic) : d.relabel φ = d := by
  obtain ⟨line, token?, error⟩ := d
  rw [Diagnostic.relabel, StaticError.relabel_kept names, lines]
  cases token? with
  | none => rfl
  | some token => rw [Option.map_some, Token.relabel_kept names]

theorem Diagnostic.map_relabel_kept (ds : List Diagnostic) : ds.map (Diagnostic.relabel φ) = ds :=
  List.map_id'' (Diagnostic.relabel_kept names lines) ds

end Kept

theorem Relabeling.shift_counts (count : Nat) : (shift count).Counts :=
  fun id => Nat.add_right_comm id 1 count

/-! ### Programs -/

section Programs

variable {φ : Relabeling} {tokens : List Located}

def Parsed.relabel (φ : Relabeling) (parsed : Parsed) : Parsed :=
  ⟨Stmt.relabelAll φ parsed.program, parsed.diagnostics.map (Diagnostic.relabel φ), φ.id parsed.nextId⟩

/-- An end that is added stands on the line of the last token, so there has to be one. -/
theorem closed_relabel (some : tokens ≠ []) :
    closed (tokens.map (Located.relabel φ)) = (closed tokens).map (Located.relabel φ) := by
  unfold closed
  rw [List.getLast?_map, List.getLast?_eq_some_getLast some, Option.map_some]
  have atEnd : ((tokens.getLast some).relabel φ).token = .endOfInput ↔ (tokens.getLast some).token = .endOfInput :=
    Token.relabel_eq_iff (by simp)
  by_cases last : (tokens.getLast some).token = .endOfInput
  · simp only [if_pos last, if_pos (atEnd.mpr last)]
  · simp only [if_neg last, if_neg fun h => last (atEnd.mp h)]
    rw [List.map_append]
    rfl

theorem parse_relabel (counts : φ.Counts) (nextId : Nat) (some : tokens ≠ []) :
    parse (φ.id nextId) (tokens.map (Located.relabel φ)) = (parse nextId tokens).relabel φ := by
  have start : Cursor.start (φ.id nextId) (tokens.map (Located.relabel φ)) =
      (Cursor.start nextId tokens).relabel φ := by
    unfold Cursor.start
    rw [closed_relabel some]
    rfl
  have depth : depthFor (tokens.map (Located.relabel φ)) = depthFor tokens := by
    unfold depthFor
    rw [List.length_map]
  have ends : (Cursor.start nextId tokens).Ends := closed_ended tokens
  have read := (program_natural counts (depthFor tokens)).image _ ends
  unfold parse
  rw [start, depth, read]
  cases program (depthFor tokens) (.start nextId tokens) with
  | ok statements last => rfl
  | failed error last => simp [Reply.relabel, Parsed.relabel, Stmt.relabelAll, Cursor.relabel]
  | starved => rfl

end Programs

end Lox
