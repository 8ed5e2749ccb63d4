import Mathlib.Data.List.Forall2
import Lox.Proofs.Syntax.Grammar

/-!
Where the lines of a tree come from. A node that keeps a line keeps that of one of its tokens: an operator, a name,
an opening parenthesis or bracket, or a keyword. `pins` writes a tree as `tokens` does, with the lines that its nodes
keep, and `Pinned` relates the pins to the tokens of a text that are on these lines.
-/

namespace Lox

/-! ### Tokens and their lines -/

/-- A token, and the line it is on if that is kept. -/
structure Pin where
  token : Token
  line? : Option Nat

namespace Pin

abbrev mark (m : Mark) : Pin :=
  ⟨.mark m, none⟩

abbrev keyword (k : Keyword) : Pin :=
  ⟨.keyword k, none⟩

abbrev identifier (name : String) : Pin :=
  ⟨.identifier name, none⟩

/-- A token whose line is kept. -/
abbrev on (token : Token) (line : Nat) : Pin :=
  ⟨token, some line⟩

/-- A token of a text stands for a pin: it is on the line that is kept. -/
def Holds (p : Pin) (l : Located) : Prop :=
  l.token = p.token ∧ ∀ line ∈ p.line?, l.line = line

/-- The same token, on the same line if both keep it. -/
def Agrees (p q : Pin) : Prop :=
  p.token = q.token ∧ ∀ line ∈ p.line?, ∀ other ∈ q.line?, line = other

@[simp] theorem agrees_on {t u : Token} {line other : Nat} :
    (on t line).Agrees (on u other) ↔ t = u ∧ line = other := by
  simp [Agrees]

theorem Holds.agrees {p q : Pin} {l : Located} (first : p.Holds l) (second : q.Holds l) : p.Agrees q :=
  ⟨first.1.symm.trans second.1, fun line kept other kept' =>
    (first.2 line kept).symm.trans (second.2 other kept')⟩

end Pin

/-! ### The pins of a tree -/

mutual

def Expr.pins : Expr → List Pin
  | .literal value => [⟨value.token, none⟩]
  | .group inner => .mark .leftParen :: inner.pins ++ [.mark .rightParen]
  | .unary op operand line => .on op.token line :: operand.pins
  | .binary op left right line => left.pins ++ .on op.token line :: right.pins
  | .conditional test consequent alternative =>
    test.pins ++ .mark .question :: consequent.pins ++ .mark .colon :: alternative.pins
  | .var use => [.on (.identifier use.name) use.line]
  | .assign target value => .on (.identifier target.name) target.line :: .mark .equal :: value.pins
  | .thisRef _ line => [.on (.keyword .thisWord) line]
  | .superRef _ method line => [.on (.keyword .superWord) line, .mark .dot, .identifier method]
  | .call callee arguments line =>
    callee.pins ++ .on (.mark .leftParen) line :: Expr.itemPins arguments ++ [.mark .rightParen]
  | .field object name line => object.pins ++ [.mark .dot, .on (.identifier name) line]
  | .setField object name value line =>
    object.pins ++ .mark .dot :: .on (.identifier name) line :: .mark .equal :: value.pins
  | .array elements => .mark .leftSquare :: Expr.itemPins elements ++ [.mark .rightSquare]
  | .element sequence index line =>
    sequence.pins ++ .on (.mark .leftSquare) line :: index.pins ++ [.mark .rightSquare]
  | .setElement sequence index value line =>
    sequence.pins ++ .on (.mark .leftSquare) line :: index.pins ++
      .mark .rightSquare :: .mark .equal :: value.pins

def Expr.itemPins : List Expr → List Pin
  | [] => []
  | e :: es => e.pins ++ Expr.morePins es

def Expr.morePins : List Expr → List Pin
  | [] => []
  | e :: es => .mark .comma :: e.pins ++ Expr.morePins es

end

def Expr.optPins : Option Expr → List Pin
  | none => []
  | some e => e.pins

def moreParamPins : List String → List Pin
  | [] => []
  | name :: names => .mark .comma :: .identifier name :: moreParamPins names

def paramPins : List String → List Pin
  | [] => []
  | name :: names => .identifier name :: moreParamPins names

def superclassPins : Option Use → List Pin
  | none => []
  | some use => [.mark .less, .on (.identifier use.name) use.line]

mutual

def Stmt.pins : Stmt → List Pin
  | .expr value => value.pins ++ [.mark .semicolon]
  | .print items line => .on (.keyword .printWord) line :: Expr.itemPins items ++ [.mark .semicolon]
  | .varDecl name none line => [.keyword .varWord, .on (.identifier name) line, .mark .semicolon]
  | .varDecl name (some initial) line =>
    .keyword .varWord :: .on (.identifier name) line :: .mark .equal :: initial.pins ++ [.mark .semicolon]
  | .block body => .mark .leftCurly :: Stmt.pinsAll body ++ [.mark .rightCurly]
  | .ifElse test consequent none =>
    .keyword .ifWord :: .mark .leftParen :: test.pins ++ .mark .rightParen :: consequent.pins
  | .ifElse test consequent (some alternative) =>
    .keyword .ifWord :: .mark .leftParen :: test.pins ++ .mark .rightParen :: consequent.pins ++
      .keyword .elseWord :: alternative.pins
  | .whileLoop test body =>
    .keyword .whileWord :: .mark .leftParen :: test.pins ++ .mark .rightParen :: body.pins
  | .forLoop none test? step? body =>
    .keyword .forWord :: .mark .leftParen :: .mark .semicolon :: Expr.optPins test? ++
      .mark .semicolon :: Expr.optPins step? ++ .mark .rightParen :: body.pins
  | .forLoop (some initial) test? step? body =>
    .keyword .forWord :: .mark .leftParen :: initial.pins ++ Expr.optPins test? ++
      .mark .semicolon :: Expr.optPins step? ++ .mark .rightParen :: body.pins
  | .breakLoop => [.keyword .breakWord, .mark .semicolon]
  | .continueLoop => [.keyword .continueWord, .mark .semicolon]
  | .funDecl decl => .keyword .funWord :: decl.pins
  | .returnValue value? line => .on (.keyword .returnWord) line :: Expr.optPins value? ++ [.mark .semicolon]
  | .classDecl name superclass? methods line =>
    .keyword .classWord :: .on (.identifier name) line :: superclassPins superclass? ++
      .mark .leftCurly :: FunctionDecl.pinsAll methods ++ [.mark .rightCurly]

def FunctionDecl.pins : FunctionDecl → List Pin
  | { name, params, body, line } =>
    .on (.identifier name) line :: .mark .leftParen :: paramPins params ++
      .mark .rightParen :: .mark .leftCurly :: Stmt.pinsAll body ++ [.mark .rightCurly]

def Stmt.pinsAll : List Stmt → List Pin
  | [] => []
  | s :: ss => s.pins ++ Stmt.pinsAll ss

def FunctionDecl.pinsAll : List FunctionDecl → List Pin
  | [] => []
  | f :: fs => f.pins ++ FunctionDecl.pinsAll fs

end

/-! ### The tokens of pins -/

mutual

theorem Expr.tokens_pins : ∀ e : Expr, e.pins.map Pin.token = e.tokens
  | .literal _ => rfl
  | .group inner => by simp [Expr.pins, Expr.tokens, inner.tokens_pins]
  | .unary _ operand _ => by simp [Expr.pins, Expr.tokens, operand.tokens_pins]
  | .binary _ left right _ => by simp [Expr.pins, Expr.tokens, left.tokens_pins, right.tokens_pins]
  | .conditional test consequent alternative => by
    simp [Expr.pins, Expr.tokens, test.tokens_pins, consequent.tokens_pins, alternative.tokens_pins]
  | .var _ => rfl
  | .assign _ value => by simp [Expr.pins, Expr.tokens, value.tokens_pins]
  | .thisRef _ _ => rfl
  | .superRef _ _ _ => rfl
  | .call callee arguments _ => by
    simp [Expr.pins, Expr.tokens, callee.tokens_pins, Expr.tokens_itemPins arguments]
  | .field object _ _ => by simp [Expr.pins, Expr.tokens, object.tokens_pins]
  | .setField object _ value _ => by simp [Expr.pins, Expr.tokens, object.tokens_pins, value.tokens_pins]
  | .array elements => by simp [Expr.pins, Expr.tokens, Expr.tokens_itemPins elements]
  | .element sequence index _ => by simp [Expr.pins, Expr.tokens, sequence.tokens_pins, index.tokens_pins]
  | .setElement sequence index value _ => by
    simp [Expr.pins, Expr.tokens, sequence.tokens_pins, index.tokens_pins, value.tokens_pins]

theorem Expr.tokens_itemPins : ∀ es : List Expr, (Expr.itemPins es).map Pin.token = Expr.itemTokens es
  | [] => rfl
  | e :: es => by simp [Expr.itemPins, Expr.itemTokens, e.tokens_pins, Expr.tokens_morePins es]

theorem Expr.tokens_morePins : ∀ es : List Expr, (Expr.morePins es).map Pin.token = Expr.moreTokens es
  | [] => rfl
  | e :: es => by simp [Expr.morePins, Expr.moreTokens, e.tokens_pins, Expr.tokens_morePins es]

end

theorem Expr.tokens_optPins (e? : Option Expr) : (Expr.optPins e?).map Pin.token = Expr.optTokens e? := by
  cases e? with
  | none => rfl
  | some e => exact e.tokens_pins

theorem tokens_moreParamPins (names : List String) : (moreParamPins names).map Pin.token = moreParamTokens names := by
  induction names with
  | nil => rfl
  | cons name names ih => simp [moreParamPins, moreParamTokens, ih]

theorem tokens_paramPins (names : List String) : (paramPins names).map Pin.token = paramTokens names := by
  cases names with
  | nil => rfl
  | cons name names => simp [paramPins, paramTokens, tokens_moreParamPins]

theorem tokens_superclassPins (use? : Option Use) : (superclassPins use?).map Pin.token = superclassTokens use? := by
  cases use? <;> rfl

mutual

theorem Stmt.tokens_pins : ∀ s : Stmt, s.pins.map Pin.token = s.tokens
  | .expr value => by simp [Stmt.pins, Stmt.tokens, value.tokens_pins]
  | .print items _ => by simp [Stmt.pins, Stmt.tokens, Expr.tokens_itemPins items]
  | .varDecl _ none _ => rfl
  | .varDecl _ (some initial) _ => by simp [Stmt.pins, Stmt.tokens, initial.tokens_pins]
  | .block body => by simp [Stmt.pins, Stmt.tokens, Stmt.tokens_pinsAll body]
  | .ifElse test consequent none => by simp [Stmt.pins, Stmt.tokens, test.tokens_pins, consequent.tokens_pins]
  | .ifElse test consequent (some alternative) => by
    simp [Stmt.pins, Stmt.tokens, test.tokens_pins, consequent.tokens_pins, alternative.tokens_pins]
  | .whileLoop test body => by simp [Stmt.pins, Stmt.tokens, test.tokens_pins, body.tokens_pins]
  | .forLoop none _ _ body => by simp [Stmt.pins, Stmt.tokens, Expr.tokens_optPins, body.tokens_pins]
  | .forLoop (some initial) _ _ body => by
    simp [Stmt.pins, Stmt.tokens, Expr.tokens_optPins, initial.tokens_pins, body.tokens_pins]
  | .breakLoop => rfl
  | .continueLoop => rfl
  | .funDecl decl => by simp [Stmt.pins, Stmt.tokens, decl.tokens_pins]
  | .returnValue _ _ => by simp [Stmt.pins, Stmt.tokens, Expr.tokens_optPins]
  | .classDecl _ _ methods _ => by
    simp [Stmt.pins, Stmt.tokens, tokens_superclassPins, FunctionDecl.tokens_pinsAll methods]

theorem FunctionDecl.tokens_pins : ∀ f : FunctionDecl, f.pins.map Pin.token = f.tokens
  | { name := _, params := _, body, line := _ } => by
    simp [FunctionDecl.pins, FunctionDecl.tokens, tokens_paramPins, Stmt.tokens_pinsAll body]

theorem Stmt.tokens_pinsAll : ∀ ss : List Stmt, (Stmt.pinsAll ss).map Pin.token = Stmt.tokensAll ss
  | [] => rfl
  | s :: ss => by simp [Stmt.pinsAll, Stmt.tokensAll, s.tokens_pins, Stmt.tokens_pinsAll ss]

theorem FunctionDecl.tokens_pinsAll : ∀ fs : List FunctionDecl,
    (FunctionDecl.pinsAll fs).map Pin.token = FunctionDecl.tokensAll fs
  | [] => rfl
  | f :: fs => by simp [FunctionDecl.pinsAll, FunctionDecl.tokensAll, f.tokens_pins, FunctionDecl.tokens_pinsAll fs]

end

/-! ### The tokens of a text -/

/-- Located tokens that stand for pins, as in `Spells`. -/
inductive Pinned : List Pin → List Located → Prop
  | nil : Pinned [] []
  | cons {p : Pin} {l : Located} {ps : List Pin} {ls : List Located} :
    p.Holds l → Pinned ps ls → Pinned (p :: ps) (l :: ls)
  | colon (name : String) (first second third : Nat) {ps : List Pin} {ls : List Located} :
    Pinned ps ls →
    Pinned (.keyword .classWord :: .on (.identifier name) second :: .mark .less :: ps)
      (⟨.keyword .classWord, first⟩ :: ⟨.identifier name, second⟩ :: ⟨.mark .colon, third⟩ :: ls)

namespace Pinned

variable {ps qs : List Pin} {ls ms : List Located}

theorem append (first : Pinned ps ls) (second : Pinned qs ms) : Pinned (ps ++ qs) (ls ++ ms) := by
  induction first with
  | nil => exact second
  | cons holds _ ih => exact .cons holds ih
  | colon name first second third _ ih => exact .colon name first second third ih

theorem spells (pinned : Pinned ps ls) : Spells (ps.map Pin.token) ls := by
  induction pinned with
  | nil => exact .nil
  | @cons p l ps ls holds _ ih =>
    rw [List.map_cons, ← holds.1]
    exact .cons l.token l.line ih
  | colon name first second third _ ih => exact .colon name first second third ih

/-- A colon between names does not stand for `<`. -/
theorem not_less {name : String} {line third : Nat} {ts : List Token}
    (pinned : Pinned ps (⟨.identifier name, line⟩ :: ⟨.mark .colon, third⟩ :: ls)) :
    ps.map Pin.token ≠ .identifier name :: .mark .less :: ts := by
  intro same
  cases pinned with
  | cons _ behind =>
    cases behind with
    | cons holds _ =>
      have less := (List.cons.inj (List.cons.inj same).2).1
      rw [← holds.1] at less
      cases less

/-- Pins that the same tokens of a text stand for agree. -/
theorem agree (first : Pinned ps ls) (second : Pinned qs ls) (same : ps.map Pin.token = qs.map Pin.token) :
    List.Forall₂ Pin.Agrees ps qs := by
  induction first generalizing qs with
  | nil =>
    cases second with
    | nil => exact .nil
  | cons holds behind ih =>
    cases second with
    | cons holds' behind' => exact .cons (holds.agrees holds') (ih behind' (List.cons.inj same).2)
    | colon _ _ _ _ _ => exact absurd (List.cons.inj same).2 behind.not_less
  | colon name first second third _ ih =>
    cases second with
    | cons _ behind' => exact absurd (List.cons.inj same).2.symm behind'.not_less
    | colon _ _ _ _ behind' =>
      have rest := (List.cons.inj (List.cons.inj (List.cons.inj same).2).2).2
      exact .cons ⟨rfl, by simp⟩ (.cons ⟨rfl, by simp⟩ (.cons ⟨rfl, by simp⟩ (ih behind' rest)))

end Pinned

end Lox
