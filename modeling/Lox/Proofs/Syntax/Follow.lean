import Lox.Proofs.Syntax.Soundness

/-!
What decides where a phrase ends. A token that may follow an expression of a level continues none of
the operations that reading the level looks for, and a token that starts an expression closes no list
and starts no statement of another kind.
-/

namespace Lox

open Parse

variable {α β : Type} {c next last : Cursor}

/-! ### Tokens between and in front of expressions -/

/-- The level of the operation that a token continues behind an operand. -/
def Token.joint? : Token → Option Level
  | .mark .equal => some .assignment
  | .mark .question => some .conditional
  | .mark .leftParen | .mark .dot | .mark .leftSquare => some .suffix
  | token => (BinaryOp.ofToken? token).map BinaryOp.level

/-- The tokens may stand behind an expression of a level that ends in front of them. -/
def Follows (level : Level) (rest : List Token) : Prop :=
  ∀ joint, (rest.headD .endOfInput).joint? = some joint → joint < level

theorem Follows.tighten {loose tight : Level} {rest : List Token} (follows : Follows loose rest)
    (le : loose ≤ tight) : Follows tight rest :=
  fun joint same => Level.lt_of_lt_of_le (follows joint same) le

theorem Follows.not_joint {level joint : Level} {rest : List Token} (follows : Follows level rest)
    (le : level ≤ joint) : (rest.headD .endOfInput).joint? ≠ some joint :=
  fun same => Level.not_lt.mpr le (follows joint same)

theorem follows_of_none {level : Level} {t : Token} {rest : List Token} (none : t.joint? = none) :
    Follows level (t :: rest) := by
  intro joint same
  simp [none] at same

theorem follows_of_some {level : Level} {t : Token} {rest : List Token} (joint : Level)
    (joins : t.joint? = some joint)
    (less : joint < level) : Follows level (t :: rest) := by
  intro other same
  obtain rfl : joint = other := by simpa [joins] using same
  exact less

theorem BinaryOp.joint?_token (op : BinaryOp) : op.token.joint? = some op.level := by
  cases op <;> rfl

theorem Follows.no_operator {level : Level} {rest : List Token} (follows : Follows level rest) :
    level.operator? (rest.headD .endOfInput) = none := by
  cases found : level.operator? (rest.headD .endOfInput) with
  | none => rfl
  | some op =>
    obtain ⟨same, rfl⟩ := Level.operator?_eq_some.mp found
    exact absurd (same ▸ op.joint?_token) (follows.not_joint (Level.le_refl _))

/-- Tokens that an expression may start with. -/
def Token.startsExpr : Token → Bool
  | .keyword .nilWord | .keyword .trueWord | .keyword .falseWord | .number _ | .string _
  | .identifier _ | .keyword .thisWord | .keyword .superWord
  | .mark .leftParen | .mark .leftSquare | .mark .minus | .mark .bang => true
  | _ => false

theorem Expr.head_starts : ∀ (e : Expr) (rest : List Token),
    ((e.tokens ++ rest).headD .endOfInput).startsExpr = true
  | .literal value, _ => by
    match value with
    | .nil | .bool true | .bool false | .number _ | .string _ => rfl
  | .unary op _ _, _ => by cases op <;> rfl
  | .group _, _ | .var _, _ | .assign _ _, _ | .thisRef _ _, _ | .superRef _ _ _, _ | .array _, _ => rfl
  | .binary _ left _ _, _ => by
    simp only [Expr.tokens, List.append_assoc]
    exact left.head_starts _
  | .conditional test _ _, _ => by
    simp only [Expr.tokens, List.append_assoc]
    exact test.head_starts _
  | .call callee _ _, _ => by
    simp only [Expr.tokens, List.append_assoc]
    exact callee.head_starts _
  | .field object _ _, _ => by
    simp only [Expr.tokens, List.append_assoc]
    exact object.head_starts _
  | .setField object _ _ _, _ => by
    simp only [Expr.tokens, List.append_assoc]
    exact object.head_starts _
  | .element sequence _ _, _ => by
    simp only [Expr.tokens, List.append_assoc]
    exact sequence.head_starts _
  | .setElement sequence _ _ _, _ => by
    simp only [Expr.tokens, List.append_assoc]
    exact sequence.head_starts _

/-- An expression that is no operation of an operator does not start with one. -/
theorem Expr.head_not_unary : ∀ e : Expr, e.Stratified → .suffix ≤ e.level → ∀ rest : List Token,
    UnaryOp.ofToken? ((e.tokens ++ rest).headD .endOfInput) = none
  | .literal value, _, _, _ => by
    match value with
    | .nil | .bool true | .bool false | .number _ | .string _ => rfl
  | .group _, _, _, _ | .var _, _, _, _ | .thisRef _ _, _, _, _ | .superRef _ _ _, _, _, _
  | .array _, _, _, _ => rfl
  | .call callee _ _, strata, _, rest => by
    simp only [Expr.tokens, List.append_assoc]
    exact callee.head_not_unary strata.1.2 strata.1.1 _
  | .field object _ _, strata, _, rest => by
    simp only [Expr.tokens, List.append_assoc]
    exact object.head_not_unary strata.2 strata.1 _
  | .element sequence _ _, strata, _, rest => by
    simp only [Expr.tokens, List.append_assoc]
    exact sequence.head_not_unary strata.1.2 strata.1.1 _
  | .unary _ _ _, _, tight, _ => absurd tight (show ¬ Level.suffix ≤ .unary by decide)
  | .conditional _ _ _, _, tight, _ => absurd tight (show ¬ Level.suffix ≤ .conditional by decide)
  | .assign _ _, _, tight, _ | .setField _ _ _ _, _, tight, _ | .setElement _ _ _ _, _, tight, _ =>
    absurd tight (show ¬ Level.suffix ≤ .assignment by decide)
  | .binary op _ _ _, _, tight, _ => absurd tight (show ¬ Level.suffix ≤ op.level by cases op <;> decide)

/-! ### Tokens in front of statements -/

/-- Tokens that start a statement of their own kind, and no expression. -/
def Token.startsOther : Token → Bool
  | .keyword .classWord | .keyword .funWord | .keyword .varWord | .keyword .forWord
  | .keyword .ifWord | .keyword .whileWord | .keyword .printWord | .keyword .returnWord
  | .keyword .breakWord | .keyword .continueWord | .mark .leftCurly => true
  | _ => false

theorem Stmt.starts (s : Stmt) (rest : List Token) :
    ((s.tokens ++ rest).headD .endOfInput).startsExpr = true ∨
    ((s.tokens ++ rest).headD .endOfInput).startsOther = true := by
  match s with
  | .expr value =>
    refine Or.inl ?_
    simpa [Stmt.tokens] using value.head_starts (.mark .semicolon :: rest)
  | .varDecl _ none _ | .varDecl _ (some _) _ | .print _ _ | .block _ | .ifElse _ _ none
  | .ifElse _ _ (some _) | .whileLoop _ _ | .forLoop none _ _ _ | .forLoop (some _) _ _ _
  | .breakLoop | .continueLoop | .funDecl _ | .returnValue _ _ | .classDecl _ _ _ _ =>
    exact Or.inr rfl

theorem startsOther_apart {t : Token} (starts : t.startsExpr = true ∨ t.startsOther = true) :
    t ≠ .keyword .elseWord ∧ t ≠ .mark .rightCurly ∧ t ≠ .endOfInput := by
  refine ⟨?_, ?_, ?_⟩ <;> rintro rfl <;> simp [Token.startsExpr, Token.startsOther] at starts

/-- No statement starts with an `else`, nor do statements in a row. -/
theorem Stmt.tokensAll_head (ss : List Stmt) {rest : List Token}
    (closes : rest.headD .endOfInput ≠ .keyword .elseWord) :
    (Stmt.tokensAll ss ++ rest).headD .endOfInput ≠ .keyword .elseWord := by
  cases ss with
  | nil => exact closes
  | cons s ss =>
    rw [Stmt.tokensAll, List.append_assoc]
    exact (startsOther_apart (s.starts _)).1

/-- A statement that is no declaration does not start like one. -/
theorem Stmt.head_plain {s : Stmt} (plain : s.Plain) (rest : List Token) :
    (s.tokens ++ rest).headD .endOfInput ≠ .keyword .classWord ∧
    (s.tokens ++ rest).headD .endOfInput ≠ .keyword .funWord ∧
    (s.tokens ++ rest).headD .endOfInput ≠ .keyword .varWord := by
  match s with
  | .expr value =>
    have starts := value.head_starts (.mark .semicolon :: rest)
    simp only [Stmt.tokens, List.append_assoc, List.cons_append, List.nil_append]
    refine ⟨?_, ?_, ?_⟩ <;> intro same <;> rw [same] at starts <;> cases starts
  | .varDecl _ _ _ | .funDecl _ | .classDecl _ _ _ _ => exact plain.elim
  | .print _ _ | .block _ | .ifElse _ _ none | .ifElse _ _ (some _) | .whileLoop _ _
  | .forLoop none _ _ _ | .forLoop (some _) _ _ _ | .breakLoop | .continueLoop | .returnValue _ _ =>
    simp [Stmt.tokens]

/-! ### Standing in front of tokens -/

/-- The tokens from the cursor on. -/
def Cursor.Faces (c : Cursor) (ts : List Token) : Prop :=
  Spells ts c.rest

theorem Cursor.Faces.here {ts : List Token} (faces : c.Faces ts) : c.here.token = ts.headD .endOfInput := by
  unfold Cursor.Faces at faces
  unfold Cursor.here
  generalize c.rest = ls at faces
  cases faces <;> rfl

theorem Cursor.Faces.here_cons {t : Token} {ts : List Token} (faces : c.Faces (t :: ts)) :
    c.here.token = t :=
  faces.here

theorem Cursor.Faces.nested {ts : List Token} (faces : c.Faces ts) (loops functions : Nat) :
    { c with loops := loops, functions := functions }.Faces ts := faces

/-- A cursor was moved to the given tokens, with nothing reported on the way. -/
structure Cursor.Reaches (c : Cursor) (rest : List Token) (next : Cursor) : Prop where
  faces : next.Faces rest
  diagnostics : next.diagnostics = c.diagnostics
  loops : next.loops = c.loops
  functions : next.functions = c.functions

namespace Cursor

theorem Reaches.refl {ts : List Token} (faces : c.Faces ts) : c.Reaches ts c :=
  ⟨faces, rfl, rfl, rfl⟩

theorem Reaches.trans {ts us : List Token} (first : c.Reaches ts next) (second : next.Reaches us last) :
    c.Reaches us last :=
  ⟨second.faces, second.diagnostics.trans first.diagnostics, second.loops.trans first.loops,
    second.functions.trans first.functions⟩

theorem Faces.advance {t : Token} {ts : List Token} (faces : c.Faces (t :: ts))
    (inside : t ≠ .endOfInput) (plain : t ≠ .keyword .classWord) : c.Reaches ts c.advance := by
  have here := faces.here_cons
  have rest := advance_rest (c := c) (here ▸ inside)
  refine ⟨?_, by simp [Cursor.advance, here, inside], by simp [Cursor.advance, here, inside],
    by simp [Cursor.advance, here, inside]⟩
  unfold Faces at faces ⊢
  rw [rest]
  cases same : c.rest with
  | nil => rw [same] at faces; cases faces
  | cons l ls =>
    rw [same] at faces
    cases faces with
    | cons _ _ behind => exact behind
    | colon => exact absurd rfl plain

/-- Behind `class` the tokens go on as given, or a colon stands for the `<` behind the name. -/
theorem Faces.advance_class {ts : List Token} (faces : c.Faces (.keyword .classWord :: ts)) :
    c.Reaches ts c.advance ∨ ∃ name us, ts = .identifier name :: .mark .less :: us ∧
      c.advance.here.token = .identifier name ∧ c.advance.advance.here.token = .mark .colon ∧
      c.Reaches us c.advance.advance.advance := by
  unfold Faces at faces
  obtain ⟨rest, nextId, loops, functions, diagnostics⟩ := c
  cases faces with
  | cons _ _ behind =>
    refine Or.inl ⟨?_, ?_, ?_, ?_⟩ <;> simp [Cursor.advance, Cursor.here, Faces, behind]
  | colon name _ _ _ behind =>
    refine Or.inr ⟨name, _, rfl, ?_, ?_, ?_, ?_, ?_, ?_⟩ <;>
      simp [Cursor.advance, Cursor.here, Faces, behind]

theorem reaches_fresh {ts : List Token} (faces : c.Faces ts) :
    c.Reaches ts { c with nextId := c.nextId + 1 } :=
  ⟨faces, rfl, rfl, rfl⟩

end Cursor

/-! ### Reading that succeeds -/

/-- A reader succeeds at a cursor as stated, unless it uses up its depth. -/
def Parse.Yields (p : Parse α) (c : Cursor) (Q : α → Cursor → Prop) : Prop :=
  p c = .starved ∨ ∃ a next, p c = .ok a next ∧ Q a next

namespace Parse

variable {P : α → Cursor → Prop} {Q : β → Cursor → Prop}

theorem Yields.bind {p : Parse α} {f : α → Parse β} (first : p.Yields c P)
    (second : ∀ a next, P a next → (f a).Yields next Q) : (p >>= f).Yields c Q := by
  rcases first with starved | ⟨a, next, read, given⟩
  · exact Or.inl (bind_eq_starved.mpr (Or.inl starved))
  rcases second a next given with starved | ⟨b, last, behind, given⟩
  · exact Or.inl (bind_eq_starved.mpr (Or.inr ⟨a, next, read, starved⟩))
  · exact Or.inr ⟨b, last, bind_eq_ok.mpr ⟨a, next, read, behind⟩, given⟩

theorem Yields.imp {p : Parse α} {R : α → Cursor → Prop} (yields : p.Yields c P)
    (entails : ∀ a next, P a next → R a next) : p.Yields c R := by
  rcases yields with starved | ⟨a, next, read, given⟩
  · exact Or.inl starved
  · exact Or.inr ⟨a, next, read, entails a next given⟩

theorem starve_yields : (starve : Parse α).Yields c P :=
  Or.inl rfl

theorem pure_yields {a : α} (given : P a c) : (pure a : Parse α).Yields c P :=
  Or.inr ⟨a, c, rfl, given⟩

theorem peek_bind_yields {t : Token} {f : Token → Parse β} (here : c.here.token = t)
    (second : (f t).Yields c Q) : (peek >>= f).Yields c Q := by
  subst here
  exact second

theorem take_bind_yields {f : Located → Parse β} (second : (f c.here).Yields c.advance Q) :
    (take >>= f).Yields c Q := second

theorem fresh_bind_yields {f : Nat → Parse β}
    (second : (f c.nextId).Yields { c with nextId := c.nextId + 1 } Q) : (fresh >>= f).Yields c Q := second

theorem accept_bind_yields {token : Token} {f : Bool → Parse β} (here : c.here.token = token)
    (second : (f true).Yields c.advance Q) : (accept token >>= f).Yields c Q :=
  Yields.bind (P := fun taken next => taken = true ∧ next = c.advance)
    (Or.inr ⟨true, c.advance, by simp [accept, here], rfl, rfl⟩)
    (by rintro _ _ ⟨rfl, rfl⟩; exact second)

theorem accept_bind_yields_left {token : Token} {f : Bool → Parse β} (here : c.here.token ≠ token)
    (second : (f false).Yields c Q) : (accept token >>= f).Yields c Q :=
  Yields.bind (P := fun taken next => taken = false ∧ next = c)
    (Or.inr ⟨false, c, by simp [accept, here], rfl, rfl⟩)
    (by rintro _ _ ⟨rfl, rfl⟩; exact second)

theorem acceptEither_bind_yields {first second : Token} {f : Bool → Parse β}
    (here : c.here.token = first ∨ c.here.token = second) (behind : (f true).Yields c.advance Q) :
    (acceptEither first second >>= f).Yields c Q :=
  Yields.bind (P := fun taken next => taken = true ∧ next = c.advance)
    (Or.inr ⟨true, c.advance, by simp [acceptEither, here], rfl, rfl⟩)
    (by rintro _ _ ⟨rfl, rfl⟩; exact behind)

theorem acceptEither_bind_yields_left {first second : Token} {f : Bool → Parse β}
    (here : ¬ (c.here.token = first ∨ c.here.token = second)) (behind : (f false).Yields c Q) :
    (acceptEither first second >>= f).Yields c Q :=
  Yields.bind (P := fun taken next => taken = false ∧ next = c)
    (Or.inr ⟨false, c, by simp [acceptEither, here], rfl, rfl⟩)
    (by rintro _ _ ⟨rfl, rfl⟩; exact behind)

theorem expect_bind_yields {token : Token} {f : Unit → Parse β} (here : c.here.token = token)
    (second : (f ()).Yields c.advance Q) : (expect token >>= f).Yields c Q :=
  Yields.bind (P := fun _ next => next = c.advance)
    (Or.inr ⟨(), c.advance, by simp [expect, here], rfl⟩)
    (by rintro _ _ rfl; exact second)

theorem identifier_bind_yields {name : String} {f : String × Nat → Parse β}
    (here : c.here.token = .identifier name) (second : (f (name, c.here.line)).Yields c.advance Q) :
    (identifier >>= f).Yields c Q :=
  Yields.bind (P := fun found next => found = (name, c.here.line) ∧ next = c.advance)
    (Or.inr ⟨_, c.advance, by simp [identifier, here], rfl, rfl⟩)
    (by rintro _ _ ⟨rfl, rfl⟩; exact second)

theorem atBlockEnd_bind_yields {f : Bool → Parse β} (ends : Bool)
    (here : ends = decide (c.here.token = .mark .rightCurly ∨ c.here.token = .endOfInput))
    (second : (f ends).Yields c Q) : (atBlockEnd >>= f).Yields c Q :=
  Yields.bind (P := fun found next => found = ends ∧ next = c)
    (Or.inr ⟨ends, c, atBlockEnd_eq_ok.mpr ⟨here, rfl⟩, rfl, rfl⟩)
    (by rintro _ _ ⟨rfl, rfl⟩; exact second)

/-- A jump out of something is taken without a report. -/
theorem takeJump_bind_yields {depth : Parse Nat} {count : Cursor → Nat} {error : StaticError}
    {f : Located → Parse β} (reads : ∀ c, depth c = .ok (count c) c) (inside : count c.advance ≠ 0)
    (second : (f c.here).Yields c.advance Q) : (takeJump depth error >>= f).Yields c Q := by
  refine Yields.bind (P := fun spot next => spot = c.here ∧ next = c.advance)
    (Or.inr ⟨c.here, c.advance, ?_, rfl, rfl⟩) (by rintro _ _ ⟨rfl, rfl⟩; exact second)
  refine bind_eq_ok.mpr ⟨c.here, c.advance, rfl, bind_eq_ok.mpr ⟨_, _, reads _, ?_⟩⟩
  simp [inside]

theorem Yields.inLoop {p : Parse α}
    (body : p.Yields { c with loops := c.loops + 1 } fun a inner =>
      P a { inner with loops := c.loops, functions := c.functions }) : (inLoop p).Yields c P := by
  rcases body with starved | ⟨a, inner, read, given⟩
  · exact Or.inl (by simp [Parse.inLoop, starved, Reply.nest])
  · exact Or.inr ⟨a, _, inLoop_eq_ok.mpr ⟨inner, read, rfl⟩, given⟩

theorem Yields.inFunction {p : Parse α}
    (body : p.Yields { c with loops := 0, functions := c.functions + 1 } fun a inner =>
      P a { inner with loops := c.loops, functions := c.functions }) : (inFunction p).Yields c P := by
  rcases body with starved | ⟨a, inner, read, given⟩
  · exact Or.inl (by simp [Parse.inFunction, starved, Reply.nest])
  · exact Or.inr ⟨a, _, inFunction_eq_ok.mpr ⟨inner, read, rfl⟩, given⟩

theorem Yields.recover {p : Parse α} (body : p.Yields c P) :
    (recover p).Yields c fun a? next => ∃ a, a? = some a ∧ P a next := by
  rcases body with starved | ⟨a, next, read, given⟩
  · exact Or.inl (by simp [Parse.recover, starved])
  · exact Or.inr ⟨some a, next, recover_eq_ok.mpr (Or.inl ⟨a, read, rfl⟩), a, rfl, given⟩

end Parse

end Lox
