import Lox.Syntax.Program

/-!
# The grammar

What a program is, beside the reader of it. `tokens` writes a tree as the tokens that it stands for,
`Spells` relates them to the tokens of a text, `Stratified` holds of a tree whose operands are of the
levels that the grammar gives them, and `Placed` of one whose jumps have something to jump out of.
`erase` drops the ids and lines of a tree.
-/

namespace Lox

/-! ### Levels -/

def Level.rank : Level → Nat
  | .comma => 0
  | .assignment => 1
  | .conditional => 2
  | .or => 3
  | .and => 4
  | .equality => 5
  | .comparison => 6
  | .term => 7
  | .factor => 8
  | .unary => 9
  | .suffix => 10
  | .primary => 11

instance : LE Level := ⟨fun a b => a.rank ≤ b.rank⟩

instance : LT Level := ⟨fun a b => a.rank < b.rank⟩

instance (a b : Level) : Decidable (a ≤ b) := Nat.decLe a.rank b.rank

instance (a b : Level) : Decidable (a < b) := Nat.decLt a.rank b.rank

theorem Level.le_refl (a : Level) : a ≤ a := Nat.le_refl a.rank

theorem Level.le_trans {a b c : Level} (hab : a ≤ b) (hbc : b ≤ c) : a ≤ c := Nat.le_trans hab hbc

theorem Level.lt_of_lt_of_le {a b c : Level} (hab : a < b) (hbc : b ≤ c) : a < c :=
  Nat.lt_of_lt_of_le hab hbc

theorem Level.not_lt {a b : Level} : ¬ a < b ↔ b ≤ a := Nat.not_lt

theorem Level.eq_of_rank {a b : Level} (same : a.rank = b.rank) : a = b := by
  cases a <;> cases b <;> first | rfl | exact absurd same (by decide)

theorem Level.le_tighter (a : Level) : a ≤ a.tighter := by
  cases a <;> decide

theorem Level.comma_le (a : Level) : .comma ≤ a := Nat.zero_le a.rank

theorem Level.tighter_le_of_lt {a b : Level} (less : a < b) : a.tighter ≤ b := by
  have step : a.tighter.rank ≤ a.rank + 1 := by cases a <;> decide
  exact Nat.le_trans step less

/-- The level of the outermost operation of an expression. -/
def Expr.level : Expr → Level
  | .binary op _ _ _ => op.level
  | .assign _ _ | .setField _ _ _ _ | .setElement _ _ _ _ => .assignment
  | .conditional _ _ _ => .conditional
  | .unary _ _ _ => .unary
  | .call _ _ _ | .field _ _ _ | .element _ _ _ => .suffix
  | .literal _ | .group _ | .var _ | .thisRef _ _ | .superRef _ _ _ | .array _ => .primary

mutual

/-- Each operand of an expression is of the level that the grammar gives it, or of a tighter one. -/
def Expr.Stratified : Expr → Prop
  | .literal _ | .var _ | .thisRef _ _ | .superRef _ _ _ => True
  | .group inner => inner.Stratified
  | .unary _ operand _ => .unary ≤ operand.level ∧ operand.Stratified
  | .binary op left right _ =>
    (op.level ≤ left.level ∧ left.Stratified) ∧ (op.level.tighter ≤ right.level ∧ right.Stratified)
  | .conditional test consequent alternative =>
    (.or ≤ test.level ∧ test.Stratified) ∧
    (.assignment ≤ consequent.level ∧ consequent.Stratified) ∧
    (.conditional ≤ alternative.level ∧ alternative.Stratified)
  | .assign _ value => .assignment ≤ value.level ∧ value.Stratified
  | .call callee arguments _ =>
    (.suffix ≤ callee.level ∧ callee.Stratified) ∧ Expr.StratifiedAll arguments
  | .field object _ _ => .suffix ≤ object.level ∧ object.Stratified
  | .setField object _ value _ =>
    (.suffix ≤ object.level ∧ object.Stratified) ∧ (.assignment ≤ value.level ∧ value.Stratified)
  | .array elements => Expr.StratifiedAll elements
  | .element sequence index _ =>
    (.suffix ≤ sequence.level ∧ sequence.Stratified) ∧ index.Stratified
  | .setElement sequence index value _ =>
    (.suffix ≤ sequence.level ∧ sequence.Stratified) ∧ index.Stratified ∧
    (.assignment ≤ value.level ∧ value.Stratified)

/-- The expressions between commas that separate: none of them is a comma operation. -/
def Expr.StratifiedAll : List Expr → Prop
  | [] => True
  | e :: es => (.assignment ≤ e.level ∧ e.Stratified) ∧ Expr.StratifiedAll es

end

def Expr.StratifiedOpt (e? : Option Expr) : Prop :=
  ∀ e, e? = some e → e.Stratified

/-! ### Statements -/

/-- A statement that may stand by itself behind a condition, where a declaration may not. -/
def Stmt.Plain : Stmt → Prop
  | .varDecl _ _ _ | .funDecl _ | .classDecl _ _ _ _ => False
  | _ => True

/-- What may be the first clause of a `for`. -/
def Stmt.Initial : Stmt → Prop
  | .varDecl _ _ _ | .expr _ => True
  | _ => False

/-- Whether a statement ends with an `if` that could take an `else`. -/
def Stmt.endsOpen : Stmt → Bool
  | .ifElse _ _ none => true
  | .ifElse _ _ (some alternative) => alternative.endsOpen
  | .whileLoop _ body => body.endsOpen
  | .forLoop _ _ _ body => body.endsOpen
  | _ => false

mutual

/-- Each part of a statement is what the grammar lets stand there, and each `else` belongs to the
nearest `if` that could take it. -/
def Stmt.Stratified : Stmt → Prop
  | .expr value => value.Stratified
  | .print items _ => items ≠ [] ∧ Expr.StratifiedAll items
  | .varDecl _ initial? _ => Expr.StratifiedOpt initial?
  | .block body => Stmt.StratifiedAll body
  | .ifElse test consequent none => test.Stratified ∧ consequent.Plain ∧ consequent.Stratified
  | .ifElse test consequent (some alternative) =>
    test.Stratified ∧ (consequent.Plain ∧ consequent.Stratified ∧ consequent.endsOpen = false) ∧
    alternative.Plain ∧ alternative.Stratified
  | .whileLoop test body => test.Stratified ∧ body.Plain ∧ body.Stratified
  | .forLoop none test? step? body =>
    Expr.StratifiedOpt test? ∧ Expr.StratifiedOpt step? ∧ body.Plain ∧ body.Stratified
  | .forLoop (some initial) test? step? body =>
    (initial.Initial ∧ initial.Stratified) ∧ Expr.StratifiedOpt test? ∧ Expr.StratifiedOpt step? ∧
    body.Plain ∧ body.Stratified
  | .breakLoop | .continueLoop => True
  | .funDecl decl => decl.Stratified
  | .returnValue value? _ => Expr.StratifiedOpt value?
  | .classDecl _ _ methods _ => FunctionDecl.StratifiedAll methods

def FunctionDecl.Stratified : FunctionDecl → Prop
  | { name := _, params := _, body, line := _ } => Stmt.StratifiedAll body

def Stmt.StratifiedAll : List Stmt → Prop
  | [] => True
  | s :: ss => s.Stratified ∧ Stmt.StratifiedAll ss

def FunctionDecl.StratifiedAll : List FunctionDecl → Prop
  | [] => True
  | f :: fs => f.Stratified ∧ FunctionDecl.StratifiedAll fs

end

mutual

/-- Each `break` and `continue` is inside a loop of its function, and each `return` inside a function,
for a statement that itself is or is not. -/
def Stmt.Placed (inLoop inFunction : Bool) : Stmt → Prop
  | .breakLoop | .continueLoop => inLoop = true
  | .returnValue _ _ => inFunction = true
  | .block body => Stmt.PlacedAll inLoop inFunction body
  | .ifElse _ consequent none => consequent.Placed inLoop inFunction
  | .ifElse _ consequent (some alternative) =>
    consequent.Placed inLoop inFunction ∧ alternative.Placed inLoop inFunction
  | .whileLoop _ body => body.Placed true inFunction
  | .forLoop none _ _ body => body.Placed true inFunction
  | .forLoop (some initial) _ _ body =>
    initial.Placed inLoop inFunction ∧ body.Placed true inFunction
  | .funDecl decl => decl.Placed
  | .classDecl _ _ methods _ => FunctionDecl.PlacedAll methods
  | .expr _ | .print _ _ | .varDecl _ _ _ => True

/-- A loop around a function is not around its body. -/
def FunctionDecl.Placed : FunctionDecl → Prop
  | { name := _, params := _, body, line := _ } => Stmt.PlacedAll false true body

def Stmt.PlacedAll (inLoop inFunction : Bool) : List Stmt → Prop
  | [] => True
  | s :: ss => s.Placed inLoop inFunction ∧ Stmt.PlacedAll inLoop inFunction ss

def FunctionDecl.PlacedAll : List FunctionDecl → Prop
  | [] => True
  | f :: fs => f.Placed ∧ FunctionDecl.PlacedAll fs

end

/-! ### The tokens of a tree -/

mutual

def Expr.tokens : Expr → List Token
  | .literal value => [value.token]
  | .group inner => .mark .leftParen :: inner.tokens ++ [.mark .rightParen]
  | .unary op operand _ => op.token :: operand.tokens
  | .binary op left right _ => left.tokens ++ op.token :: right.tokens
  | .conditional test consequent alternative =>
    test.tokens ++ .mark .question :: consequent.tokens ++ .mark .colon :: alternative.tokens
  | .var use => [.identifier use.name]
  | .assign target value => .identifier target.name :: .mark .equal :: value.tokens
  | .thisRef _ _ => [.keyword .thisWord]
  | .superRef _ method _ => [.keyword .superWord, .mark .dot, .identifier method]
  | .call callee arguments _ =>
    callee.tokens ++ .mark .leftParen :: Expr.itemTokens arguments ++ [.mark .rightParen]
  | .field object name _ => object.tokens ++ [.mark .dot, .identifier name]
  | .setField object name value _ =>
    object.tokens ++ .mark .dot :: .identifier name :: .mark .equal :: value.tokens
  | .array elements => .mark .leftSquare :: Expr.itemTokens elements ++ [.mark .rightSquare]
  | .element sequence index _ =>
    sequence.tokens ++ .mark .leftSquare :: index.tokens ++ [.mark .rightSquare]
  | .setElement sequence index value _ =>
    sequence.tokens ++ .mark .leftSquare :: index.tokens ++
      .mark .rightSquare :: .mark .equal :: value.tokens

/-- The tokens of expressions with commas between them. -/
def Expr.itemTokens : List Expr → List Token
  | [] => []
  | e :: es => e.tokens ++ Expr.moreTokens es

/-- The tokens of expressions with a comma in front of each. -/
def Expr.moreTokens : List Expr → List Token
  | [] => []
  | e :: es => .mark .comma :: e.tokens ++ Expr.moreTokens es

end

def Expr.optTokens : Option Expr → List Token
  | none => []
  | some e => e.tokens

def moreParamTokens : List String → List Token
  | [] => []
  | name :: names => .mark .comma :: .identifier name :: moreParamTokens names

def paramTokens : List String → List Token
  | [] => []
  | name :: names => .identifier name :: moreParamTokens names

def superclassTokens : Option Use → List Token
  | none => []
  | some use => [.mark .less, .identifier use.name]

mutual

def Stmt.tokens : Stmt → List Token
  | .expr value => value.tokens ++ [.mark .semicolon]
  | .print items _ => .keyword .printWord :: Expr.itemTokens items ++ [.mark .semicolon]
  | .varDecl name none _ => [.keyword .varWord, .identifier name, .mark .semicolon]
  | .varDecl name (some initial) _ =>
    .keyword .varWord :: .identifier name :: .mark .equal :: initial.tokens ++ [.mark .semicolon]
  | .block body => .mark .leftCurly :: Stmt.tokensAll body ++ [.mark .rightCurly]
  | .ifElse test consequent none =>
    .keyword .ifWord :: .mark .leftParen :: test.tokens ++ .mark .rightParen :: consequent.tokens
  | .ifElse test consequent (some alternative) =>
    .keyword .ifWord :: .mark .leftParen :: test.tokens ++ .mark .rightParen :: consequent.tokens ++
      .keyword .elseWord :: alternative.tokens
  | .whileLoop test body =>
    .keyword .whileWord :: .mark .leftParen :: test.tokens ++ .mark .rightParen :: body.tokens
  | .forLoop none test? step? body =>
    .keyword .forWord :: .mark .leftParen :: .mark .semicolon :: Expr.optTokens test? ++
      .mark .semicolon :: Expr.optTokens step? ++ .mark .rightParen :: body.tokens
  | .forLoop (some initial) test? step? body =>
    .keyword .forWord :: .mark .leftParen :: initial.tokens ++ Expr.optTokens test? ++
      .mark .semicolon :: Expr.optTokens step? ++ .mark .rightParen :: body.tokens
  | .breakLoop => [.keyword .breakWord, .mark .semicolon]
  | .continueLoop => [.keyword .continueWord, .mark .semicolon]
  | .funDecl decl => .keyword .funWord :: decl.tokens
  | .returnValue value? _ => .keyword .returnWord :: Expr.optTokens value? ++ [.mark .semicolon]
  | .classDecl name superclass? methods _ =>
    .keyword .classWord :: .identifier name :: superclassTokens superclass? ++
      .mark .leftCurly :: FunctionDecl.tokensAll methods ++ [.mark .rightCurly]

/-- The tokens of a function from its name on. -/
def FunctionDecl.tokens : FunctionDecl → List Token
  | { name, params, body, line := _ } =>
    .identifier name :: .mark .leftParen :: paramTokens params ++
      .mark .rightParen :: .mark .leftCurly :: Stmt.tokensAll body ++ [.mark .rightCurly]

def Stmt.tokensAll : List Stmt → List Token
  | [] => []
  | s :: ss => s.tokens ++ Stmt.tokensAll ss

def FunctionDecl.tokensAll : List FunctionDecl → List Token
  | [] => []
  | f :: fs => f.tokens ++ FunctionDecl.tokensAll fs

end

/-- Located tokens that stand for given ones: the same in the same order, wherever they are, but that a
colon may stand for the `<` in front of the name of a superclass. -/
inductive Spells : List Token → List Located → Prop
  | nil : Spells [] []
  | cons (t : Token) (line : Nat) {ts : List Token} {ls : List Located} :
    Spells ts ls → Spells (t :: ts) (⟨t, line⟩ :: ls)
  | colon (name : String) (first second third : Nat) {ts : List Token} {ls : List Located} :
    Spells ts ls →
    Spells (.keyword .classWord :: .identifier name :: .mark .less :: ts)
      (⟨.keyword .classWord, first⟩ :: ⟨.identifier name, second⟩ :: ⟨.mark .colon, third⟩ :: ls)

/-! ### Trees without ids and lines -/

def Use.erase (use : Use) : Use :=
  ⟨0, use.name, 0⟩

mutual

def Expr.erase : Expr → Expr
  | .literal value => .literal value
  | .group inner => .group inner.erase
  | .unary op operand _ => .unary op operand.erase 0
  | .binary op left right _ => .binary op left.erase right.erase 0
  | .conditional test consequent alternative =>
    .conditional test.erase consequent.erase alternative.erase
  | .var use => .var use.erase
  | .assign target value => .assign target.erase value.erase
  | .thisRef _ _ => .thisRef 0 0
  | .superRef _ method _ => .superRef 0 method 0
  | .call callee arguments _ => .call callee.erase (Expr.eraseAll arguments) 0
  | .field object name _ => .field object.erase name 0
  | .setField object name value _ => .setField object.erase name value.erase 0
  | .array elements => .array (Expr.eraseAll elements)
  | .element sequence index _ => .element sequence.erase index.erase 0
  | .setElement sequence index value _ => .setElement sequence.erase index.erase value.erase 0

def Expr.eraseAll : List Expr → List Expr
  | [] => []
  | e :: es => e.erase :: Expr.eraseAll es

end

mutual

def Stmt.erase : Stmt → Stmt
  | .expr value => .expr value.erase
  | .print items _ => .print (Expr.eraseAll items) 0
  | .varDecl name initial? _ => .varDecl name (initial?.map Expr.erase) 0
  | .block body => .block (Stmt.eraseAll body)
  | .ifElse test consequent none => .ifElse test.erase consequent.erase none
  | .ifElse test consequent (some alternative) =>
    .ifElse test.erase consequent.erase (some alternative.erase)
  | .whileLoop test body => .whileLoop test.erase body.erase
  | .forLoop none test? step? body =>
    .forLoop none (test?.map Expr.erase) (step?.map Expr.erase) body.erase
  | .forLoop (some initial) test? step? body =>
    .forLoop (some initial.erase) (test?.map Expr.erase) (step?.map Expr.erase) body.erase
  | .breakLoop => .breakLoop
  | .continueLoop => .continueLoop
  | .funDecl decl => .funDecl decl.erase
  | .returnValue value? _ => .returnValue (value?.map Expr.erase) 0
  | .classDecl name superclass? methods _ =>
    .classDecl name (superclass?.map Use.erase) (FunctionDecl.eraseAll methods) 0

def FunctionDecl.erase : FunctionDecl → FunctionDecl
  | { name, params, body, line := _ } => ⟨name, params, Stmt.eraseAll body, 0⟩

def Stmt.eraseAll : List Stmt → List Stmt
  | [] => []
  | s :: ss => s.erase :: Stmt.eraseAll ss

def FunctionDecl.eraseAll : List FunctionDecl → List FunctionDecl
  | [] => []
  | f :: fs => f.erase :: FunctionDecl.eraseAll fs

end

/-! ### Ids and lines are not among the tokens -/

mutual

theorem Expr.tokens_erase : ∀ e : Expr, e.erase.tokens = e.tokens
  | .literal _ => rfl
  | .group inner => by rw [Expr.erase, Expr.tokens, Expr.tokens, inner.tokens_erase]
  | .unary _ operand _ => by rw [Expr.erase, Expr.tokens, Expr.tokens, operand.tokens_erase]
  | .binary _ left right _ => by
    rw [Expr.erase, Expr.tokens, Expr.tokens, left.tokens_erase, right.tokens_erase]
  | .conditional test consequent alternative => by
    rw [Expr.erase, Expr.tokens, Expr.tokens, test.tokens_erase, consequent.tokens_erase, alternative.tokens_erase]
  | .var _ => rfl
  | .assign _ value => by rw [Expr.erase, Expr.tokens, Expr.tokens, value.tokens_erase, Use.erase]
  | .thisRef _ _ => rfl
  | .superRef _ _ _ => rfl
  | .call callee arguments _ => by
    rw [Expr.erase, Expr.tokens, Expr.tokens, callee.tokens_erase, Expr.itemTokens_erase arguments]
  | .field object _ _ => by rw [Expr.erase, Expr.tokens, Expr.tokens, object.tokens_erase]
  | .setField object _ value _ => by
    rw [Expr.erase, Expr.tokens, Expr.tokens, object.tokens_erase, value.tokens_erase]
  | .array elements => by rw [Expr.erase, Expr.tokens, Expr.tokens, Expr.itemTokens_erase elements]
  | .element sequence index _ => by
    rw [Expr.erase, Expr.tokens, Expr.tokens, sequence.tokens_erase, index.tokens_erase]
  | .setElement sequence index value _ => by
    rw [Expr.erase, Expr.tokens, Expr.tokens, sequence.tokens_erase, index.tokens_erase, value.tokens_erase]

theorem Expr.itemTokens_erase : ∀ es : List Expr, Expr.itemTokens (Expr.eraseAll es) = Expr.itemTokens es
  | [] => rfl
  | e :: es => by
    rw [Expr.eraseAll, Expr.itemTokens, Expr.itemTokens, e.tokens_erase, Expr.moreTokens_erase es]

theorem Expr.moreTokens_erase : ∀ es : List Expr, Expr.moreTokens (Expr.eraseAll es) = Expr.moreTokens es
  | [] => rfl
  | e :: es => by
    rw [Expr.eraseAll, Expr.moreTokens, Expr.moreTokens, e.tokens_erase, Expr.moreTokens_erase es]

end

theorem Expr.optTokens_erase (e? : Option Expr) : Expr.optTokens (e?.map Expr.erase) = Expr.optTokens e? := by
  cases e? with
  | none => rfl
  | some e => exact e.tokens_erase

mutual

theorem Stmt.tokens_erase : ∀ s : Stmt, s.erase.tokens = s.tokens
  | .expr value => by rw [Stmt.erase, Stmt.tokens, Stmt.tokens, value.tokens_erase]
  | .print items _ => by rw [Stmt.erase, Stmt.tokens, Stmt.tokens, Expr.itemTokens_erase]
  | .varDecl _ none _ => rfl
  | .varDecl _ (some initial) _ => by
    rw [Stmt.erase, Option.map_some, Stmt.tokens, Stmt.tokens, initial.tokens_erase]
  | .block body => by rw [Stmt.erase, Stmt.tokens, Stmt.tokens, Stmt.tokensAll_erase body]
  | .ifElse test consequent none => by
    rw [Stmt.erase, Stmt.tokens, Stmt.tokens, test.tokens_erase, consequent.tokens_erase]
  | .ifElse test consequent (some alternative) => by
    rw [Stmt.erase, Stmt.tokens, Stmt.tokens, test.tokens_erase, consequent.tokens_erase, alternative.tokens_erase]
  | .whileLoop test body => by rw [Stmt.erase, Stmt.tokens, Stmt.tokens, test.tokens_erase, body.tokens_erase]
  | .forLoop none test? step? body => by
    rw [Stmt.erase, Stmt.tokens, Stmt.tokens, Expr.optTokens_erase, Expr.optTokens_erase, body.tokens_erase]
  | .forLoop (some initial) test? step? body => by
    rw [Stmt.erase, Stmt.tokens, Stmt.tokens, initial.tokens_erase, Expr.optTokens_erase, Expr.optTokens_erase,
      body.tokens_erase]
  | .breakLoop => rfl
  | .continueLoop => rfl
  | .funDecl decl => by rw [Stmt.erase, Stmt.tokens, Stmt.tokens, decl.tokens_erase]
  | .returnValue value? _ => by rw [Stmt.erase, Stmt.tokens, Stmt.tokens, Expr.optTokens_erase]
  | .classDecl _ none methods _ => by
    rw [Stmt.erase, Stmt.tokens, Stmt.tokens, FunctionDecl.tokensAll_erase methods, Option.map_none]
  | .classDecl _ (some use) methods _ => by
    rw [Stmt.erase, Stmt.tokens, Stmt.tokens, FunctionDecl.tokensAll_erase methods, Option.map_some, superclassTokens,
      superclassTokens, Use.erase]

theorem FunctionDecl.tokens_erase : ∀ f : FunctionDecl, f.erase.tokens = f.tokens
  | { name := _, params := _, body, line := _ } => by
    rw [FunctionDecl.erase, FunctionDecl.tokens, FunctionDecl.tokens, Stmt.tokensAll_erase body]

theorem Stmt.tokensAll_erase : ∀ ss : List Stmt, Stmt.tokensAll (Stmt.eraseAll ss) = Stmt.tokensAll ss
  | [] => rfl
  | s :: ss => by rw [Stmt.eraseAll, Stmt.tokensAll, Stmt.tokensAll, s.tokens_erase, Stmt.tokensAll_erase ss]

theorem FunctionDecl.tokensAll_erase : ∀ fs : List FunctionDecl,
    FunctionDecl.tokensAll (FunctionDecl.eraseAll fs) = FunctionDecl.tokensAll fs
  | [] => rfl
  | f :: fs => by
    rw [FunctionDecl.eraseAll, FunctionDecl.tokensAll, FunctionDecl.tokensAll, f.tokens_erase,
      FunctionDecl.tokensAll_erase fs]

end

end Lox
