import Lox.Proofs.Syntax.Depth
import Lox.Proofs.Syntax.Pins

/-!
What is read without a diagnostic is what was written. The tokens of the tree are the tokens that were
passed, with their lines, and the tree obeys the levels of the grammar.
-/

namespace Lox

open Parse

variable {α β : Type} {c start next last : Cursor} {n : Nat}

/-! ### Operators and literals -/

theorem BinaryOp.ofToken?_eq_some {op : BinaryOp} {token : Token} :
    BinaryOp.ofToken? token = some op ↔ op.token = token := by
  constructor
  · intro read
    unfold BinaryOp.ofToken? at read
    split at read <;> simp at read <;> subst read <;> rfl
  · rintro rfl
    cases op <;> rfl

theorem UnaryOp.ofToken?_eq_some {op : UnaryOp} {token : Token} :
    UnaryOp.ofToken? token = some op ↔ op.token = token := by
  constructor
  · intro read
    unfold UnaryOp.ofToken? at read
    split at read <;> simp at read <;> subst read <;> rfl
  · rintro rfl
    cases op <;> rfl

theorem Literal.ofToken?_eq_some {value : Literal} {token : Token} :
    Literal.ofToken? token = some value ↔ value.token = token := by
  constructor
  · intro read
    unfold Literal.ofToken? at read
    split at read <;> simp at read <;> subst read <;> rfl
  · rintro rfl
    match value with
    | .nil | .bool true | .bool false | .number _ | .string _ => rfl

theorem Level.operator?_eq_some {level : Level} {op : BinaryOp} {token : Token} :
    level.operator? token = some op ↔ op.token = token ∧ op.level = level := by
  simp only [Level.operator?, Option.filter_eq_some_iff, BinaryOp.ofToken?_eq_some, decide_eq_true_eq]

theorem BinaryOp.token_ne_end (op : BinaryOp) : op.token ≠ .endOfInput := by
  cases op <;> simp [BinaryOp.token]

theorem UnaryOp.token_ne_end (op : UnaryOp) : op.token ≠ .endOfInput := by
  cases op <;> simp [UnaryOp.token]

theorem Literal.token_ne_end (value : Literal) : value.token ≠ .endOfInput := by
  match value with
  | .nil | .bool true | .bool false | .number _ | .string _ => simp [Literal.token]

theorem assigned?_pins {target value assignment : Expr} (made : target.assigned? value = some assignment) :
    assignment.pins = target.pins ++ .mark .equal :: value.pins := by
  unfold Expr.assigned? at made
  split at made <;> simp at made <;> subst made <;> simp [Expr.pins]

theorem assigned?_tokens {target value assignment : Expr} (made : target.assigned? value = some assignment) :
    assignment.tokens = target.tokens ++ .mark .equal :: value.tokens := by
  have pins := congrArg (List.map Pin.token) (assigned?_pins made)
  simpa [Expr.tokens_pins] using pins

theorem assigned?_stratified {target value assignment : Expr}
    (made : target.assigned? value = some assignment) (strata : target.Stratified)
    (level : .assignment ≤ value.level) (inner : value.Stratified) :
    .assignment ≤ assignment.level ∧ assignment.Stratified := by
  unfold Expr.assigned? at made
  split at made <;> simp at made <;> subst made
  · exact ⟨Level.le_refl _, level, inner⟩
  · exact ⟨Level.le_refl _, strata, level, inner⟩
  · exact ⟨Level.le_refl _, strata.1, strata.2, level, inner⟩

/-! ### Tokens passed -/

theorem Spells.append {ts us : List Token} {ls ms : List Located} (first : Spells ts ls)
    (second : Spells us ms) : Spells (ts ++ us) (ls ++ ms) := by
  induction first with
  | nil => exact second
  | cons t line _ ih => exact .cons t line ih
  | colon name first second third _ ih => exact .colon name first second third ih

/-- The tokens between two cursors stand for the given pins. -/
def Cursor.Spelled (c : Cursor) (ps : List Pin) (next : Cursor) : Prop :=
  ∃ ls, c.rest = ls ++ next.rest ∧ Pinned ps ls

namespace Cursor

theorem Spelled.refl (c : Cursor) : c.Spelled [] c :=
  ⟨[], rfl, .nil⟩

theorem Spelled.trans {ps qs : List Pin} (first : c.Spelled ps next) (second : next.Spelled qs last) :
    c.Spelled (ps ++ qs) last := by
  obtain ⟨ls, split₁, pinned₁⟩ := first
  obtain ⟨ms, split₂, pinned₂⟩ := second
  exact ⟨ls ++ ms, by rw [split₁, split₂, List.append_assoc], pinned₁.append pinned₂⟩

theorem Spelled.pin {p : Pin} {ps : List Pin} (here : p.Holds c.here) (inside : p.token ≠ .endOfInput)
    (behind : c.advance.Spelled ps next) : c.Spelled (p :: ps) next := by
  obtain ⟨ls, split, pinned⟩ := behind
  rw [← here.1] at inside
  refine ⟨c.here :: ls, ?_, .cons here pinned⟩
  rw [rest_eq_cons inside, ← advance_rest inside, split, List.cons_append]

theorem Spelled.cons {t : Token} {ps : List Pin} (here : c.here.token = t)
    (inside : t ≠ .endOfInput) (behind : c.advance.Spelled ps next) : c.Spelled (⟨t, none⟩ :: ps) next :=
  .pin ⟨here, by simp⟩ inside behind

/-- A token whose line goes into the tree. -/
theorem Spelled.on {t : Token} {ps : List Pin} (here : c.here.token = t)
    (inside : t ≠ .endOfInput) (behind : c.advance.Spelled ps next) : c.Spelled (.on t c.here.line :: ps) next :=
  .pin ⟨here, by simp⟩ inside behind

theorem spelled_token {t : Token} (here : c.here.token = t) (inside : t ≠ .endOfInput) :
    c.Spelled [⟨t, none⟩] c.advance :=
  .cons here inside (.refl _)

theorem spelled_on {t : Token} (here : c.here.token = t) (inside : t ≠ .endOfInput) :
    c.Spelled [.on t c.here.line] c.advance :=
  .on here inside (.refl _)

end Cursor

/-! ### Expressions -/

/-- An expression of a level was read between two cursors. -/
structure Expr.ReadAt (level : Level) (c : Cursor) (e : Expr) (next : Cursor) : Prop where
  spelled : c.Spelled e.pins next
  level : level ≤ e.level
  strata : e.Stratified

theorem Expr.ReadAt.loosen {e : Expr} {tight loose : Level} (read : e.ReadAt tight c next)
    (le : loose ≤ tight) : e.ReadAt loose c next :=
  ⟨read.spelled, Level.le_trans le read.level, read.strata⟩

/-- Expressions were read through a closing token, the tokens in front of which are given. -/
structure Expr.ItemsRead (closing : Token) (c : Cursor) (es : List Expr) (ps : List Pin)
    (next : Cursor) : Prop where
  spelled : c.Spelled (ps ++ [⟨closing, none⟩]) next
  strata : Expr.StratifiedAll es

structure ExprsSound (n : Nat) : Prop where
  exprAt : ∀ level c, (exprAt n level).Gives c fun e next =>
    next.diagnostics = [] → e.ReadAt level c next
  operationsOn : ∀ level left start c, (operationsOn n level left).Gives c fun e next =>
    next.diagnostics = [] → left.ReadAt level start c → e.ReadAt level start next
  suffixesOf : ∀ object start c, (suffixesOf n object).Gives c fun e next =>
    next.diagnostics = [] → object.ReadAt .suffix start c → e.ReadAt .suffix start next
  items : ∀ closing c, closing ≠ .endOfInput → (items n closing).Gives c fun es next =>
    next.diagnostics = [] → Expr.ItemsRead closing c es (Expr.itemPins es) next
  moreItems : ∀ closing c, closing ≠ .endOfInput → (moreItems n closing).Gives c fun es next =>
    next.diagnostics = [] → Expr.ItemsRead closing c es (Expr.morePins es) next
  primary : ∀ c, (primary n).Gives c fun e next => next.diagnostics = [] → e.ReadAt .primary c next

theorem items_sound {closing : Token} (ih : ExprsSound n) (inside : closing ≠ .endOfInput) :
    (items (n + 1) closing).Gives c fun es next =>
      next.diagnostics = [] → Expr.ItemsRead closing c es (Expr.itemPins es) next := by
  refine accept_bind_gives (fun same => ?_) (fun _ => ?_)
  · exact pure_gives fun _ => ⟨Cursor.spelled_token same inside, trivial⟩
  refine (ih.exprAt .assignment c).bind fun first c₁ _ readFirst => ?_
  refine (ih.moreItems closing c₁ inside).bind fun others c₂ moved readOthers => ?_
  refine pure_gives fun clean => ?_
  obtain ⟨spelled₁, level, strata⟩ := readFirst ((((exprs_move n).moreItems _).ok moved).clean clean)
  obtain ⟨spelled₂, others⟩ := readOthers clean
  refine ⟨?_, ⟨level, strata⟩, others⟩
  simpa [Expr.itemPins] using spelled₁.trans spelled₂

theorem moreItems_sound {closing : Token} (ih : ExprsSound n) (inside : closing ≠ .endOfInput) :
    (moreItems (n + 1) closing).Gives c fun es next =>
      next.diagnostics = [] → Expr.ItemsRead closing c es (Expr.morePins es) next := by
  refine accept_bind_gives (fun same => ?_) (fun _ => expect_bind_gives fun same => ?_)
  · refine (ih.exprAt .assignment _).bind fun first c₁ _ readFirst => ?_
    refine (ih.moreItems closing c₁ inside).bind fun others c₂ moved readOthers => ?_
    refine pure_gives fun clean => ?_
    obtain ⟨spelled₁, level, strata⟩ := readFirst ((((exprs_move n).moreItems _).ok moved).clean clean)
    obtain ⟨spelled₂, others⟩ := readOthers clean
    refine ⟨?_, ⟨level, strata⟩, others⟩
    simpa [Expr.morePins] using Cursor.Spelled.cons same (by simp) (spelled₁.trans spelled₂)
  · exact pure_gives fun _ => ⟨Cursor.spelled_token same inside, trivial⟩

theorem operationsOn_sound {level : Level} {left : Expr} (ih : ExprsSound n) :
    (operationsOn (n + 1) level left).Gives c fun e next =>
      next.diagnostics = [] → left.ReadAt level start c → e.ReadAt level start next := by
  refine peek_bind_gives ?_
  split
  · next op operator =>
    obtain ⟨same, level⟩ := Level.operator?_eq_some.mp operator
    refine take_bind_gives ((ih.exprAt _ _).bind fun right c₁ _ readRight => ?_)
    refine (ih.operationsOn _ _ start c₁).imp fun e last moved whole clean before => ?_
    have behind := readRight ((((exprs_move n).operationsOn _ _).ok moved).clean clean)
    refine whole clean ⟨?_, ?_, ?_⟩
    · have operation := Cursor.Spelled.on same.symm op.token_ne_end behind.spelled
      simpa [Expr.pins] using before.spelled.trans operation
    · exact level ▸ Level.le_refl _
    · exact ⟨⟨level ▸ before.level, before.strata⟩, level ▸ behind.level, behind.strata⟩
  · exact pure_gives fun _ before => before

theorem suffixesOf_sound {object : Expr} (ih : ExprsSound n) :
    (suffixesOf (n + 1) object).Gives c fun e next =>
      next.diagnostics = [] → object.ReadAt .suffix start c → e.ReadAt .suffix start next := by
  have moves := exprs_move n
  refine peek_bind_gives ?_
  split
  · next same =>
    refine take_bind_gives ((ih.items _ _ (by simp)).bind fun arguments c₁ _ readArguments => ?_)
    refine (ih.suffixesOf _ start c₁).imp fun e last moved whole clean before => ?_
    obtain ⟨spelled, strata⟩ := readArguments (((moves.suffixesOf _).ok moved).clean clean)
    refine whole clean ⟨?_, Level.le_refl _, ⟨before.level, before.strata⟩, strata⟩
    simpa [Expr.pins] using before.spelled.trans (.on same (by simp) spelled)
  · next same =>
    refine take_bind_gives (identifier_bind_gives fun name named => ?_)
    refine (ih.suffixesOf _ start _).imp fun e last moved whole clean before => ?_
    refine whole clean ⟨?_, Level.le_refl _, before.level, before.strata⟩
    simpa [Expr.pins] using
      before.spelled.trans (.cons same (by simp) (Cursor.spelled_on named (by simp)))
  · next same =>
    refine take_bind_gives ((ih.exprAt _ _).bind fun index c₁ _ readIndex => ?_)
    refine expect_bind_gives fun closed => ?_
    refine (ih.suffixesOf _ start _).imp fun e last moved whole clean before => ?_
    have inner := readIndex ((c₁.onward_advance.trans ((moves.suffixesOf _).ok moved)).clean clean)
    refine whole clean ⟨?_, Level.le_refl _, ⟨before.level, before.strata⟩, inner.strata⟩
    simpa [Expr.pins] using before.spelled.trans
      (.on same (by simp) (inner.spelled.trans (Cursor.spelled_token closed (by simp))))
  · exact pure_gives fun _ before => before

theorem primary_sound (ih : ExprsSound n) :
    (primary (n + 1)).Gives c fun e next => next.diagnostics = [] → e.ReadAt .primary c next := by
  refine peek_bind_gives ?_
  split
  · next value literal =>
    have same := Literal.ofToken?_eq_some.mp literal
    refine take_bind_gives (pure_gives fun _ => ?_)
    exact ⟨Cursor.spelled_token same.symm value.token_ne_end, Level.le_refl _, trivial⟩
  split
  · next name same =>
    refine take_bind_gives (fresh_bind_gives (pure_gives fun _ => ?_))
    exact ⟨Cursor.spelled_on same (by simp), Level.le_refl _, trivial⟩
  · next same =>
    refine take_bind_gives (fresh_bind_gives (pure_gives fun _ => ?_))
    exact ⟨Cursor.spelled_on same (by simp), Level.le_refl _, trivial⟩
  · next same =>
    refine take_bind_gives (expect_bind_gives fun dotted => identifier_bind_gives fun method named => ?_)
    refine fresh_bind_gives (pure_gives fun _ => ⟨?_, Level.le_refl _, trivial⟩)
    exact .on same (by simp) (.cons dotted (by simp) (Cursor.spelled_token named (by simp)))
  · next same =>
    refine take_bind_gives ((ih.exprAt _ _).bind fun inner c₁ _ readInner => ?_)
    refine expect_bind_gives fun closed => pure_gives fun clean => ?_
    have within := readInner (c₁.onward_advance.clean clean)
    refine ⟨?_, Level.le_refl _, within.strata⟩
    simpa [Expr.pins] using Cursor.Spelled.cons same (by simp)
      (within.spelled.trans (Cursor.spelled_token closed (by simp)))
  · next same =>
    refine take_bind_gives ((ih.items _ _ (by simp)).bind fun elements c₁ _ readElements => ?_)
    refine pure_gives fun clean => ?_
    obtain ⟨spelled, strata⟩ := readElements clean
    refine ⟨?_, Level.le_refl _, strata⟩
    simpa [Expr.pins] using Cursor.Spelled.cons same (by simp) spelled
  · exact fail_gives

theorem assignment_sound (ih : ExprsSound n) :
    (exprAt (n + 1) .assignment).Gives c fun e next =>
      next.diagnostics = [] → e.ReadAt .assignment c next := by
  refine (ih.exprAt .conditional c).bind fun target c₁ _ readTarget => peek_bind_gives ?_
  split
  · next same =>
    refine take_bind_gives ((ih.exprAt .assignment _).bind fun value c₂ moved readValue => ?_)
    split
    · next assignment made =>
      refine pure_gives fun clean => ?_
      have moved := ((exprs_move n).exprAt _).ok moved
      have left := readTarget ((c₁.onward_advance.trans moved).clean clean)
      have right := readValue clean
      obtain ⟨level, strata⟩ := assigned?_stratified made left.strata right.level right.strata
      refine ⟨?_, level, strata⟩
      rw [assigned?_pins made]
      exact left.spelled.trans (.cons same (by simp) right.spelled)
    · -- A value without a place to put it is reported.
      exact report_bind_gives (pure_gives fun clean => by simp [Cursor.report] at clean)
  · exact pure_gives fun clean => (readTarget clean).loosen (by decide)

theorem conditional_sound (ih : ExprsSound n) :
    (exprAt (n + 1) .conditional).Gives c fun e next =>
      next.diagnostics = [] → e.ReadAt .conditional c next := by
  have moves := exprs_move n
  refine (ih.exprAt .or c).bind fun test c₁ _ readTest => accept_bind_gives (fun asked => ?_) fun _ => ?_
  · refine (ih.exprAt .assignment _).bind fun consequent c₂ moved₂ readConsequent => ?_
    refine expect_bind_gives fun divided => ?_
    refine (ih.exprAt .conditional _).bind fun alternative c₃ moved₃ readAlternative => ?_
    refine pure_gives fun clean => ?_
    have clean₂ := (c₂.onward_advance.trans ((moves.exprAt _).ok moved₃)).clean clean
    have clean₁ := (c₁.onward_advance.trans ((moves.exprAt _).ok moved₂)).clean clean₂
    have first := readTest clean₁
    have second := readConsequent clean₂
    have third := readAlternative clean
    refine ⟨?_, Level.le_refl _, ⟨first.level, first.strata⟩, ⟨second.level, second.strata⟩,
      third.level, third.strata⟩
    simpa [Expr.pins] using first.spelled.trans
      (.cons asked (by simp) (second.spelled.trans (.cons divided (by simp) third.spelled)))
  · exact pure_gives fun clean => (readTest clean).loosen (by decide)

theorem unary_sound (ih : ExprsSound n) :
    (exprAt (n + 1) .unary).Gives c fun e next =>
      next.diagnostics = [] → e.ReadAt .unary c next := by
  refine peek_bind_gives ?_
  split
  · next op operator =>
    have same := UnaryOp.ofToken?_eq_some.mp operator
    refine take_bind_gives ((ih.exprAt .unary _).bind fun operand c₁ _ readOperand => ?_)
    refine pure_gives fun clean => ?_
    have inner := readOperand clean
    exact ⟨.on same.symm op.token_ne_end inner.spelled, Level.le_refl _, inner.level, inner.strata⟩
  · exact (ih.exprAt .suffix c).imp fun e next _ read clean => (read clean).loosen (by decide)

theorem exprs_sound (n : Nat) : ExprsSound n := by
  induction n with
  | zero =>
    exact ⟨fun _ _ => starve_gives, fun _ _ _ _ => starve_gives, fun _ _ _ => starve_gives,
      fun _ _ _ => starve_gives, fun _ _ _ => starve_gives, fun _ => starve_gives⟩
  | succ n ih =>
    refine ⟨fun level c => ?_, fun _ _ _ _ => operationsOn_sound ih, fun _ _ _ => suffixesOf_sound ih,
      fun _ _ => items_sound ih, fun _ _ => moreItems_sound ih, fun _ => primary_sound ih⟩
    have operations : ∀ level : Level,
        (do let left ← exprAt n level.tighter; operationsOn n level left).Gives c fun e next =>
          next.diagnostics = [] → e.ReadAt level c next := by
      intro level
      refine (ih.exprAt level.tighter c).bind fun left c₁ _ readLeft => ?_
      refine (ih.operationsOn level left c c₁).imp fun e last moved whole clean => whole clean ?_
      exact (readLeft ((((exprs_move n).operationsOn _ _).ok moved).clean clean)).loosen level.le_tighter
    cases level with
    | assignment => exact assignment_sound ih
    | conditional => exact conditional_sound ih
    | unary => exact unary_sound ih
    | suffix =>
      refine (ih.exprAt .primary c).bind fun object c₁ _ readObject => ?_
      refine (ih.suffixesOf object c c₁).imp fun e last moved whole clean => whole clean ?_
      exact (readObject ((((exprs_move n).suffixesOf _).ok moved).clean clean)).loosen (by decide)
    | primary => exact ih.primary c
    | _ => exact operations _

/-! ### Statements -/

/-- The jumps in a statement have something to jump out of at a cursor. -/
def Stmt.PlacedAt (c : Cursor) (s : Stmt) : Prop :=
  s.Placed (decide (0 < c.loops)) (decide (0 < c.functions))

def Stmt.PlacedAllAt (c : Cursor) (ss : List Stmt) : Prop :=
  Stmt.PlacedAll (decide (0 < c.loops)) (decide (0 < c.functions)) ss

theorem placedAt_back {s : Stmt} (moved : c.Onward next) (placed : s.PlacedAt next) : s.PlacedAt c := by
  unfold Stmt.PlacedAt at placed ⊢
  rwa [moved.loops, moved.functions] at placed

theorem placedAllAt_back {ss : List Stmt} (moved : c.Onward next) (placed : Stmt.PlacedAllAt next ss) :
    Stmt.PlacedAllAt c ss := by
  unfold Stmt.PlacedAllAt at placed ⊢
  rwa [moved.loops, moved.functions] at placed

/-- A statement was read between two cursors. An `if` at its end took the `else` behind it. -/
structure Stmt.ReadAt (c : Cursor) (s : Stmt) (next : Cursor) : Prop where
  spelled : c.Spelled s.pins next
  strata : s.Stratified
  placed : s.PlacedAt c
  closed : s.endsOpen = true → next.here.token ≠ .keyword .elseWord

structure Stmt.AllRead (c : Cursor) (ss : List Stmt) (next : Cursor) : Prop where
  spelled : c.Spelled (Stmt.pinsAll ss) next
  strata : Stmt.StratifiedAll ss
  placed : Stmt.PlacedAllAt c ss

structure FunctionDecl.ReadAt (c : Cursor) (f : FunctionDecl) (next : Cursor) : Prop where
  spelled : c.Spelled f.pins next
  strata : f.Stratified
  placed : f.Placed

structure FunctionDecl.AllRead (c : Cursor) (fs : List FunctionDecl) (next : Cursor) : Prop where
  spelled : c.Spelled (FunctionDecl.pinsAll fs) next
  strata : FunctionDecl.StratifiedAll fs
  placed : FunctionDecl.PlacedAll fs

theorem moreParams_sound (n : Nat) (c : Cursor) :
    (moreParams n).Gives c fun names next => c.Spelled (moreParamPins names ++ [.mark .rightParen]) next := by
  induction n generalizing c with
  | zero => exact starve_gives
  | succ n ih =>
    refine accept_bind_gives (fun same => ?_) fun _ => ?_
    · refine identifier_bind_gives fun name named => (ih _).bind fun others last _ spelled => ?_
      exact pure_gives (.cons same (by simp) (.cons named (by simp) spelled))
    · exact expect_bind_gives fun same => pure_gives (Cursor.spelled_token same (by simp))

theorem params_sound (n : Nat) (c : Cursor) :
    (params n).Gives c fun names next =>
      c.Spelled (.mark .leftParen :: paramPins names ++ [.mark .rightParen]) next := by
  refine expect_bind_gives fun opened => accept_bind_gives (fun same => ?_) fun _ => ?_
  · exact pure_gives (.cons opened (by simp) (Cursor.spelled_token same (by simp)))
  · refine identifier_bind_gives fun name named => ?_
    refine (moreParams_sound n _).bind fun others last _ spelled => ?_
    exact pure_gives (.cons opened (by simp) (.cons named (by simp) spelled))

theorem optionalExpr_sound {closing : Token} (inside : closing ≠ .endOfInput) :
    (optionalExpr n closing).Gives c fun e? next =>
      next.diagnostics = [] → c.Spelled (Expr.optPins e? ++ [⟨closing, none⟩]) next ∧ Expr.StratifiedOpt e? := by
  refine accept_bind_gives (fun same => ?_) fun _ => ?_
  · exact pure_gives fun _ => ⟨Cursor.spelled_token same inside, fun _ h => nomatch h⟩
  · refine ((exprs_sound n).exprAt .comma c).bind fun value c₁ _ read => ?_
    refine expect_bind_gives fun same => pure_gives fun clean => ?_
    have read := read (c₁.onward_advance.clean clean)
    refine ⟨read.spelled.trans (Cursor.spelled_token same inside), ?_⟩
    rintro e ⟨⟩
    exact read.strata

theorem parenExpr_sound :
    (parenExpr n).Gives c fun e next => next.diagnostics = [] →
      c.Spelled (.mark .leftParen :: e.pins ++ [.mark .rightParen]) next ∧ e.Stratified := by
  refine expect_bind_gives fun opened => ?_
  refine ((exprs_sound n).exprAt .comma _).bind fun value c₁ _ read => ?_
  refine expect_bind_gives fun same => pure_gives fun clean => ?_
  have read := read (c₁.onward_advance.clean clean)
  exact ⟨.cons opened (by simp) (read.spelled.trans (Cursor.spelled_token same (by simp))), read.strata⟩

theorem exprStmt_sound :
    (exprStmt n).Gives c fun s next => next.diagnostics = [] →
      s.ReadAt c next ∧ s.Plain ∧ s.Initial := by
  refine ((exprs_sound n).exprAt .comma c).bind fun value c₁ _ read => ?_
  refine expect_bind_gives fun same => pure_gives fun clean => ?_
  have read := read (c₁.onward_advance.clean clean)
  have spelled := read.spelled.trans (Cursor.spelled_token same (by simp))
  exact ⟨⟨spelled, read.strata, trivial, fun h => nomatch h⟩, trivial, trivial⟩

theorem varDecl_sound (same : c.here.token = .keyword .varWord) :
    (varDecl n).Gives c.advance fun s next => next.diagnostics = [] → s.ReadAt c next ∧ s.Initial := by
  refine identifier_bind_gives fun name named => accept_bind_gives (fun given => ?_) fun _ => ?_
  · refine ((exprs_sound n).exprAt .comma _).bind fun value c₁ _ read => ?_
    refine expect_bind_gives fun ended => pure_gives fun clean => ?_
    have read := read (c₁.onward_advance.clean clean)
    refine ⟨⟨?_, ?_, trivial, fun h => nomatch h⟩, trivial⟩
    · exact .cons same (by simp) (.on named (by simp) (.cons given (by simp)
        (read.spelled.trans (Cursor.spelled_token ended (by simp)))))
    · rintro e ⟨⟩
      exact read.strata
  · refine expect_bind_gives fun ended => pure_gives fun clean => ?_
    refine ⟨⟨?_, (fun _ h => nomatch h), trivial, fun h => nomatch h⟩, trivial⟩
    exact .cons same (by simp) (.on named (by simp) (Cursor.spelled_token ended (by simp)))

theorem forInitial_sound :
    (forInitial n).Gives c fun s? next => next.diagnostics = [] →
      (s? = none ∧ c.Spelled [.mark .semicolon] next) ∨ ∃ s, s? = some s ∧ s.ReadAt c next ∧ s.Initial := by
  refine accept_bind_gives (fun same => ?_) fun _ => accept_bind_gives (fun same => ?_) fun _ => ?_
  · exact pure_gives fun _ => Or.inl ⟨rfl, Cursor.spelled_token same (by simp)⟩
  · exact (varDecl_sound same).bind fun s c₁ _ read => pure_gives fun clean => Or.inr ⟨s, rfl, read clean⟩
  · refine exprStmt_sound.bind fun s c₁ _ read => pure_gives fun clean => ?_
    obtain ⟨read, _, initial⟩ := read clean
    exact Or.inr ⟨s, rfl, read, initial⟩

/-- A jump that goes unreported has something to jump out of. -/
theorem takeJump_sound {depth : Parse Nat} {error : StaticError} (count : Cursor → Nat)
    (reads : ∀ c, depth c = .ok (count c) c) :
    (takeJump depth error).Gives c fun spot next =>
      next.diagnostics = [] → spot = c.here ∧ next = c.advance ∧ 0 < count next := by
  refine take_bind_gives fun spot last h clean => ?_
  obtain ⟨found, c₁, read, h⟩ := bind_eq_ok.mp h
  rw [reads] at read
  obtain ⟨rfl, rfl⟩ := Reply.ok.inj read
  by_cases none : count c.advance = 0
  · simp only [none, if_true] at h
    obtain ⟨_, c₂, read, h⟩ := bind_eq_ok.mp h
    obtain ⟨rfl, rfl⟩ := pure_eq_ok.mp h
    rw [report_eq_ok.mp read] at clean
    simp [Cursor.report] at clean
  · simp only [none, if_false] at h
    obtain ⟨rfl, rfl⟩ := pure_eq_ok.mp h
    exact ⟨rfl, rfl, Nat.pos_of_ne_zero none⟩

/-- A class and what it inherits from, up to its methods. -/
theorem superclass_sound {name : String} (same : c.here.token = .keyword .classWord)
    (named : c.advance.here.token = .identifier name) :
    superclass.Gives c.advance.advance fun use? next =>
      c.Spelled (.keyword .classWord :: .on (.identifier name) c.advance.here.line :: superclassPins use?) next := by
  refine acceptEither_bind_gives (fun marked => ?_) (pure_gives ?_)
  · refine identifier_bind_gives fun parent parented => fresh_bind_gives (pure_gives ?_)
    rcases marked with less | colon
    · exact .cons same (by simp) (.on named (by simp) (.cons less (by simp)
        (Cursor.spelled_on parented (by simp))))
    · obtain ⟨ls, split, pinned⟩ := Cursor.spelled_on parented (by simp)
      refine ⟨_, ?_, .colon name c.here.line c.advance.here.line c.advance.advance.here.line pinned⟩
      rw [Cursor.rest_eq_cons (c := c) (by simp [same]), ← Cursor.advance_rest (by simp [same]),
        Cursor.rest_eq_cons (c := c.advance) (by simp [named]), ← Cursor.advance_rest (by simp [named]),
        Cursor.rest_eq_cons (c := c.advance.advance) (by simp [colon]),
        ← Cursor.advance_rest (by simp [colon]), split, ← same, ← named, ← colon]
      rfl
  · exact .cons same (by simp) (Cursor.spelled_on named (by simp))

structure StmtsSound (n : Nat) : Prop where
  declaration : ∀ c, (declaration n).Gives c fun s? next => next.diagnostics = [] →
    ∃ s, s? = some s ∧ s.ReadAt c next
  statement : ∀ c, (statement n).Gives c fun s next => next.diagnostics = [] → s.ReadAt c next ∧ s.Plain
  declarations : ∀ c, (declarations n).Gives c fun ss next => next.diagnostics = [] →
    Stmt.AllRead c ss next
  function : ∀ c, (function n).Gives c fun f next => next.diagnostics = [] → f.ReadAt c next
  methods : ∀ c, (methods n).Gives c fun fs next => next.diagnostics = [] → FunctionDecl.AllRead c fs next

theorem block_sound (ih : StmtsSound n) :
    (braced (declarations n)).Gives c fun ss next => next.diagnostics = [] →
      c.Spelled (.mark .leftCurly :: Stmt.pinsAll ss ++ [.mark .rightCurly]) next ∧
      Stmt.StratifiedAll ss ∧ Stmt.PlacedAllAt c ss := by
  refine Gives.braced fun opened => (ih.declarations _).imp fun ss c₁ _ read closed clean => ?_
  have read := read (c₁.onward_advance.clean clean)
  have behind := read.spelled.trans (Cursor.spelled_token closed (by simp))
  exact ⟨.cons opened (by simp) behind, read.strata, placedAllAt_back c.onward_advance read.placed⟩

theorem classBody_sound (ih : StmtsSound n) :
    (braced (methods n)).Gives c fun fs next => next.diagnostics = [] →
      c.Spelled (.mark .leftCurly :: FunctionDecl.pinsAll fs ++ [.mark .rightCurly]) next ∧
      FunctionDecl.StratifiedAll fs ∧ FunctionDecl.PlacedAll fs := by
  refine Gives.braced fun opened => (ih.methods _).imp fun fs c₁ _ read closed clean => ?_
  have read := read (c₁.onward_advance.clean clean)
  have behind := read.spelled.trans (Cursor.spelled_token closed (by simp))
  exact ⟨.cons opened (by simp) behind, read.strata, read.placed⟩

theorem function_sound (ih : StmtsSound n) :
    (function (n + 1)).Gives c fun f next => next.diagnostics = [] → f.ReadAt c next := by
  refine identifier_bind_gives fun name named => (params_sound n _).bind fun names c₁ _ listed => ?_
  refine Gives.bind (Gives.inFunction (P := fun body next => next.diagnostics = [] →
      c₁.Spelled (.mark .leftCurly :: Stmt.pinsAll body ++ [.mark .rightCurly]) next ∧
      Stmt.StratifiedAll body ∧ Stmt.PlacedAll false true body) ?_)
    fun body c₂ _ read => pure_gives fun clean => ?_
  · refine (block_sound ih).imp fun body inner _ read clean => ?_
    obtain ⟨spelled, strata, placed⟩ := read clean
    refine ⟨spelled, strata, ?_⟩
    simpa [Stmt.PlacedAllAt] using placed
  · obtain ⟨spelled, strata, placed⟩ := read clean
    refine ⟨?_, strata, placed⟩
    simpa [FunctionDecl.pins] using Cursor.Spelled.on named (by simp) (listed.trans spelled)

theorem declaration_sound (ih : StmtsSound n) :
    (declaration (n + 1)).Gives c fun s? next => next.diagnostics = [] →
      ∃ s, s? = some s ∧ s.ReadAt c next := by
  refine Gives.recover (peek_bind_gives ?_)
  split
  · next same =>
    refine take_bind_gives (identifier_bind_gives fun name named => ?_)
    refine (superclass_sound same named).bind fun use? c₁ _ headed => ?_
    refine (classBody_sound ih).bind fun methods c₂ _ read => pure_gives fun clean => ?_
    obtain ⟨spelled, strata, placed⟩ := read clean
    refine ⟨?_, strata, placed, fun h => nomatch h⟩
    simpa [Stmt.pins] using headed.trans spelled
  · next same =>
    refine take_bind_gives ((ih.function _).bind fun f c₁ _ read => pure_gives fun clean => ?_)
    have read := read clean
    exact ⟨.cons same (by simp) read.spelled, read.strata, read.placed, fun h => nomatch h⟩
  · next same =>
    exact take_bind_gives ((varDecl_sound same).imp fun s next _ read clean => (read clean).1)
  · exact (ih.statement c).imp fun s next _ read clean => (read clean).1

theorem loop_sound (ih : StmtsSound n) :
    (inLoop (statement n)).Gives c fun s next => next.diagnostics = [] →
      c.Spelled s.pins next ∧ s.Plain ∧ s.Stratified ∧ s.Placed true (decide (0 < c.functions)) ∧
      (s.endsOpen = true → next.here.token ≠ .keyword .elseWord) := by
  refine Gives.inLoop ((ih.statement _).imp fun s inner _ read clean => ?_)
  obtain ⟨⟨spelled, strata, placed, closed⟩, plain⟩ := read clean
  refine ⟨spelled, plain, strata, ?_, closed⟩
  simpa [Stmt.PlacedAt] using placed

theorem ifElse_sound (ih : StmtsSound n) (same : c.here.token = .keyword .ifWord) :
    Parse.Gives (do
      let _ ← take
      let test ← parenExpr n
      let consequent ← statement n
      if ← accept (.keyword .elseWord) then
        let alternative ← statement n
        return Stmt.ifElse test consequent (some alternative)
      else return Stmt.ifElse test consequent none) c fun s next =>
      next.diagnostics = [] → s.ReadAt c next ∧ s.Plain := by
  refine take_bind_gives (parenExpr_sound.bind fun test c₁ movedTest readTest => ?_)
  refine (ih.statement c₁).bind fun consequent c₂ movedThen readThen => ?_
  have moved₁ := c.onward_advance.trans ((parenExpr_moves n).ok movedTest)
  have moved₂ := (stmts_move n).statement.ok movedThen
  refine accept_bind_gives (fun more => ?_) fun done => ?_
  · refine (ih.statement _).bind fun alternative c₃ movedElse readElse => pure_gives fun clean => ?_
    have moved₃ := c₂.onward_advance.trans ((stmts_move n).statement.ok movedElse)
    have clean₂ := moved₃.clean clean
    have test := readTest (moved₂.clean clean₂)
    obtain ⟨first, plainFirst⟩ := readThen clean₂
    obtain ⟨second, plainSecond⟩ := readElse clean
    -- An `if` at the end of the consequent would have taken this `else` for its own.
    have shut : consequent.endsOpen = false := Bool.eq_false_iff.mpr fun h => first.closed h more
    refine ⟨⟨?_, ⟨test.2, ⟨plainFirst, first.strata, shut⟩, plainSecond, second.strata⟩, ⟨?_, ?_⟩,
      second.closed⟩, trivial⟩
    · simpa [Stmt.pins] using Cursor.Spelled.cons same (by simp)
        (test.1.trans (first.spelled.trans (.cons more (by simp) second.spelled)))
    · exact placedAt_back moved₁ first.placed
    · exact placedAt_back ((moved₁.trans moved₂).trans c₂.onward_advance) second.placed
  · refine pure_gives fun clean => ?_
    have test := readTest (moved₂.clean clean)
    obtain ⟨first, plain⟩ := readThen clean
    refine ⟨⟨?_, ⟨test.2, plain, first.strata⟩, placedAt_back moved₁ first.placed, fun _ => done⟩, trivial⟩
    simpa [Stmt.pins] using Cursor.Spelled.cons same (by simp) (test.1.trans first.spelled)

theorem forLoop_sound (ih : StmtsSound n) (same : c.here.token = .keyword .forWord) :
    Parse.Gives (do
      let _ ← take
      expect (.mark .leftParen)
      let initial? ← forInitial n
      let test? ← optionalExpr n (.mark .semicolon)
      let step? ← optionalExpr n (.mark .rightParen)
      let body ← inLoop (statement n)
      return Stmt.forLoop initial? test? step? body) c fun s next =>
      next.diagnostics = [] → s.ReadAt c next ∧ s.Plain := by
  refine take_bind_gives (expect_bind_gives fun opened => ?_)
  refine forInitial_sound.bind fun initial? c₁ moved₁ readInitial => ?_
  refine (optionalExpr_sound (by simp)).bind fun test? c₂ moved₂ readTest => ?_
  refine (optionalExpr_sound (by simp)).bind fun step? c₃ moved₃ readStep => ?_
  refine (loop_sound ih).bind fun body c₄ moved₄ readBody => pure_gives fun clean => ?_
  -- What is clean behind the loop was clean behind each of its clauses.
  have moved₁ := (forInitial_moves n).ok moved₁
  have moved₂ := (optionalExpr_moves n _).ok moved₂
  have moved₃ := (optionalExpr_moves n _).ok moved₃
  have clean₃ := ((stmts_move n).statement.inLoop.ok moved₄).clean clean
  have clean₂ := moved₃.clean clean₃
  have ahead := c.onward_advance.trans c.advance.onward_advance
  have before := (ahead.trans moved₁).trans (moved₂.trans moved₃)
  have test := readTest clean₂
  have step := readStep clean₃
  obtain ⟨spelled, plain, strata, placed, closed⟩ := readBody clean
  have behind := test.1.trans (step.1.trans spelled)
  have placed := before.functions ▸ placed
  rcases readInitial (moved₂.clean clean₂) with ⟨rfl, started⟩ | ⟨initial, rfl, started, initialKind⟩
  · refine ⟨⟨?_, ⟨test.2, step.2, plain, strata⟩, placed, closed⟩, trivial⟩
    simpa [Stmt.pins] using
      Cursor.Spelled.cons same (by simp) (.cons opened (by simp) (started.trans behind))
  · refine ⟨⟨?_, ⟨⟨initialKind, started.strata⟩, test.2, step.2, plain, strata⟩,
      ⟨placedAt_back ahead started.placed, placed⟩, closed⟩, trivial⟩
    simpa [Stmt.pins] using
      Cursor.Spelled.cons same (by simp) (.cons opened (by simp) (started.spelled.trans behind))

/-- A jump that goes unreported stands in a loop, and is read up to its semicolon. -/
theorem loopJump_sound {jump : Keyword} {error : StaticError} {s : Stmt} (same : c.here.token = .keyword jump) :
    Parse.Gives (do
      let _ ← takeJump loopDepth error
      expect (.mark .semicolon)
      return s) c fun s' next => next.diagnostics = [] →
        s' = s ∧ c.Spelled [.keyword jump, .mark .semicolon] next ∧ 0 < c.loops := by
  refine (takeJump_sound (·.loops) fun _ => rfl).bind fun spot c₁ _ read => ?_
  refine expect_bind_gives fun ended => pure_gives fun clean => ?_
  obtain ⟨-, rfl, inside⟩ := read (c₁.onward_advance.clean clean)
  refine ⟨rfl, .cons same (by simp) (Cursor.spelled_token ended (by simp)), ?_⟩
  exact c.onward_advance.loops ▸ inside

theorem statement_sound (ih : StmtsSound n) :
    (statement (n + 1)).Gives c fun s next => next.diagnostics = [] → s.ReadAt c next ∧ s.Plain := by
  have exprs := exprs_sound n
  have moves := exprs_move n
  refine peek_bind_gives ?_
  split
  · next same =>
    refine take_bind_gives ((exprs.exprAt _ _).bind fun first c₁ _ readFirst => ?_)
    refine (exprs.moreItems _ _ (by simp)).bind fun others c₂ moved readOthers => ?_
    refine pure_gives fun clean => ?_
    have first := readFirst (((moves.moreItems _).ok moved).clean clean)
    have others := readOthers clean
    refine ⟨⟨?_, ⟨by simp, ⟨first.level, first.strata⟩, others.strata⟩, trivial, fun h => nomatch h⟩, trivial⟩
    simpa [Stmt.pins, Expr.itemPins] using
      Cursor.Spelled.on same (by simp) (first.spelled.trans others.spelled)
  · next same =>
    refine (block_sound ih).bind fun body c₁ _ read => pure_gives fun clean => ?_
    obtain ⟨spelled, strata, placed⟩ := read clean
    exact ⟨⟨spelled, strata, placed, fun h => nomatch h⟩, trivial⟩
  · next same => exact ifElse_sound ih same
  · next same =>
    refine take_bind_gives (parenExpr_sound.bind fun test c₁ movedTest readTest => ?_)
    refine (loop_sound ih).bind fun body c₂ movedBody readBody => pure_gives fun clean => ?_
    have moved₁ := c.onward_advance.trans ((parenExpr_moves n).ok movedTest)
    have moved₂ := (stmts_move n).statement.inLoop.ok movedBody
    have test := readTest (moved₂.clean clean)
    obtain ⟨spelled, plain, strata, placed, closed⟩ := readBody clean
    have placed := moved₁.functions ▸ placed
    refine ⟨⟨?_, ⟨test.2, plain, strata⟩, placed, closed⟩, trivial⟩
    simpa [Stmt.pins] using Cursor.Spelled.cons same (by simp) (test.1.trans spelled)
  · next same => exact forLoop_sound ih same
  · next same =>
    refine (loopJump_sound same).imp fun s next _ read clean => ?_
    obtain ⟨rfl, spelled, inside⟩ := read clean
    exact ⟨⟨spelled, trivial, decide_eq_true inside, fun h => nomatch h⟩, trivial⟩
  · next same =>
    refine (loopJump_sound same).imp fun s next _ read clean => ?_
    obtain ⟨rfl, spelled, inside⟩ := read clean
    exact ⟨⟨spelled, trivial, decide_eq_true inside, fun h => nomatch h⟩, trivial⟩
  · next same =>
    refine (takeJump_sound (·.functions) fun _ => rfl).bind fun spot c₁ _ read => ?_
    refine (optionalExpr_sound (by simp)).bind fun value? c₂ moved readValue => pure_gives fun clean => ?_
    obtain ⟨rfl, rfl, inside⟩ := read (((optionalExpr_moves n _).ok moved).clean clean)
    obtain ⟨spelled, strata⟩ := readValue clean
    refine ⟨⟨.on same (by simp) spelled, strata, ?_, fun h => nomatch h⟩, trivial⟩
    exact decide_eq_true (c.onward_advance.functions ▸ inside)
  · exact exprStmt_sound.imp fun s next _ read clean => ⟨(read clean).1, (read clean).2.1⟩

theorem declarations_sound (ih : StmtsSound n) :
    (declarations (n + 1)).Gives c fun ss next => next.diagnostics = [] → Stmt.AllRead c ss next := by
  refine atBlockEnd_bind_gives (fun _ => ?_) fun _ => ?_
  · exact pure_gives fun _ => ⟨.refl c, trivial, trivial⟩
  refine (ih.declaration c).bind fun first? c₁ moved readFirst => ?_
  refine (ih.declarations c₁).bind fun others c₂ movedOthers readOthers => pure_gives fun clean => ?_
  obtain ⟨first, rfl, read⟩ := readFirst (((stmts_move n).declarations.ok movedOthers).clean clean)
  have others := readOthers clean
  have moved := (stmts_move n).declaration.ok moved
  exact ⟨read.spelled.trans others.spelled, ⟨read.strata, others.strata⟩,
    read.placed, placedAllAt_back moved others.placed⟩

theorem methods_sound (ih : StmtsSound n) :
    (methods (n + 1)).Gives c fun fs next => next.diagnostics = [] → FunctionDecl.AllRead c fs next := by
  refine atBlockEnd_bind_gives (fun _ => ?_) fun _ => ?_
  · exact pure_gives fun _ => ⟨.refl c, trivial, trivial⟩
  refine (ih.function c).bind fun first c₁ _ readFirst => ?_
  refine (ih.methods c₁).bind fun others c₂ moved readOthers => pure_gives fun clean => ?_
  have first := readFirst (((stmts_move n).methods.ok moved).clean clean)
  have others := readOthers clean
  exact ⟨first.spelled.trans others.spelled, ⟨first.strata, others.strata⟩, first.placed, others.placed⟩

theorem stmts_sound (n : Nat) : StmtsSound n := by
  induction n with
  | zero =>
    exact ⟨fun _ => starve_gives, fun _ => starve_gives, fun _ => starve_gives, fun _ => starve_gives,
      fun _ => starve_gives⟩
  | succ n ih =>
    exact ⟨fun _ => declaration_sound ih, fun _ => statement_sound ih, fun _ => declarations_sound ih,
      fun _ => function_sound ih, fun _ => methods_sound ih⟩

theorem program_sound (n : Nat) (c : Cursor) :
    (program n).Gives c fun ss next => next.diagnostics = [] →
      Stmt.AllRead c ss next ∧ next.here.token = .endOfInput := by
  induction n generalizing c with
  | zero => exact starve_gives
  | succ n ih =>
    refine peek_bind_gives ?_
    split
    · next atEnd => exact pure_gives fun _ => ⟨⟨.refl c, trivial, trivial⟩, atEnd⟩
    · refine ((stmts_sound n).declaration c).bind fun first? c₁ moved readFirst => ?_
      refine (ih c₁).bind fun others c₂ movedOthers readOthers => pure_gives fun clean => ?_
      obtain ⟨first, rfl, read⟩ := readFirst (((program_moves n).ok movedOthers).clean clean)
      obtain ⟨others, atEnd⟩ := readOthers clean
      have moved := (stmts_move n).declaration.ok moved
      exact ⟨⟨read.spelled.trans others.spelled, ⟨read.strata, others.strata⟩,
        read.placed, placedAllAt_back moved others.placed⟩, atEnd⟩

/-! ### Whole programs -/

theorem closed_before_end (before after : List Located) (stop : Located) :
    ∃ more, closed (before ++ stop :: after) = before ++ stop :: more := by
  unfold closed
  split
  · next none => simp at none
  split
  · exact ⟨after, rfl⟩
  · next last _ _ => exact ⟨after ++ [⟨.endOfInput, last.line⟩], by simp⟩

/-- Reading that stops at the end of the input has passed all that stands in front of it. -/
theorem spelled_to_end {ps : List Pin} {before after : List Located} {stop : Located}
    (spelled : c.Spelled ps next) (moved : c.Onward next) (atEnd : next.here.token = .endOfInput)
    (given : c.rest = before ++ stop :: after) (inside : ∀ l ∈ before, l.token ≠ .endOfInput)
    (stopped : stop.token = .endOfInput) : Pinned ps before := by
  obtain ⟨ls, split, pinned⟩ := spelled
  obtain ⟨ms, same, passed⟩ := moved.passed
  obtain rfl : ls = ms := List.append_cancel_right (split.symm.trans same)
  suffices ls = before by rwa [← this]
  rcases List.append_eq_append_iff.mp (split.symm.trans given) with
    ⟨more, rfl, rest⟩ | ⟨more, rfl, rest⟩
  · cases more with
    | nil => simp
    | cons l more =>
      have same : next.here = l := by simp [Cursor.here, rest]
      exact absurd (same ▸ atEnd) (inside l (by simp))
  · cases more with
    | nil => simp
    | cons l more =>
      obtain ⟨rfl, -⟩ := List.cons.inj rest
      exact absurd stopped (passed stop (by simp))

/-- A program without diagnostics was read as a whole. -/
theorem parse_read {nextId : Nat} {tokens : List Located} (clean : (parse nextId tokens).diagnostics = []) :
    ∃ last, program (depthFor tokens) (.start nextId tokens) = .ok (parse nextId tokens).program last ∧
      last.diagnostics = [] ∧ last.nextId = (parse nextId tokens).nextId := by
  have answers := program_answers_start nextId tokens
  unfold Answers at answers
  unfold parse at clean ⊢
  split at clean
  · next statements last read => exact ⟨last, read, clean, rfl⟩
  · simp at clean
  · next starved => exact absurd starved answers

/-- Each line of what is read without a diagnostic is that of the token it is kept for. -/
theorem parse_pinned {nextId : Nat} {before after : List Located} {stop : Located}
    (inside : ∀ l ∈ before, l.token ≠ .endOfInput) (stopped : stop.token = .endOfInput)
    (clean : (parse nextId (before ++ stop :: after)).diagnostics = []) :
    Pinned (Stmt.pinsAll (parse nextId (before ++ stop :: after)).program) before ∧
    Stmt.StratifiedAll (parse nextId (before ++ stop :: after)).program ∧
    Stmt.PlacedAll false false (parse nextId (before ++ stop :: after)).program := by
  obtain ⟨last, read, clean, -⟩ := parse_read clean
  obtain ⟨sound, atEnd⟩ := program_sound _ _ _ _ read clean
  obtain ⟨more, given⟩ := closed_before_end before after stop
  have pinned := spelled_to_end sound.spelled ((program_moves _).ok read) atEnd given inside stopped
  exact ⟨pinned, sound.strata, sound.placed⟩

theorem parse_all_read {nextId : Nat} {before after : List Located} {stop : Located}
    (inside : ∀ l ∈ before, l.token ≠ .endOfInput) (stopped : stop.token = .endOfInput)
    (clean : (parse nextId (before ++ stop :: after)).diagnostics = []) :
    Spells (Stmt.tokensAll (parse nextId (before ++ stop :: after)).program) before ∧
    Stmt.StratifiedAll (parse nextId (before ++ stop :: after)).program ∧
    Stmt.PlacedAll false false (parse nextId (before ++ stop :: after)).program := by
  obtain ⟨pinned, sound⟩ := parse_pinned inside stopped clean
  have spells := pinned.spells
  rw [Stmt.tokens_pinsAll] at spells
  exact ⟨spells, sound⟩

/-- What is read without a diagnostic is spelled by the tokens up to the end of the input, all of them
in their order, and is grouped as the grammar says. -/
theorem parse_sound {before : List Located} {stop : Located} (nextId : Nat) (after : List Located)
    (inside : ∀ l ∈ before, l.token ≠ .endOfInput) (stopped : stop.token = .endOfInput)
    (clean : (parse nextId (before ++ stop :: after)).diagnostics = []) :
    Spells (Stmt.tokensAll (parse nextId (before ++ stop :: after)).program ++ [.endOfInput])
      (before ++ [stop]) ∧
    Stmt.StratifiedAll (parse nextId (before ++ stop :: after)).program := by
  obtain ⟨spells, strata, -⟩ := parse_all_read inside stopped clean
  exact ⟨spells.append (stopped ▸ .cons stop.token stop.line .nil), strata⟩

theorem parse_sound_class :
    let before : List Located := [⟨.keyword .classWord, 1⟩, ⟨.identifier "A", 1⟩, ⟨.mark .colon, 1⟩,
      ⟨.identifier "B", 1⟩, ⟨.mark .leftCurly, 1⟩, ⟨.identifier "m", 2⟩, ⟨.mark .leftParen, 2⟩,
      ⟨.identifier "x", 2⟩, ⟨.mark .rightParen, 2⟩, ⟨.mark .leftCurly, 2⟩, ⟨.keyword .returnWord, 3⟩,
      ⟨.identifier "x", 3⟩, ⟨.mark .dot, 3⟩, ⟨.identifier "y", 3⟩, ⟨.mark .equal, 3⟩, ⟨.mark .bang, 3⟩,
      ⟨.identifier "x", 3⟩, ⟨.mark .comma, 3⟩, ⟨.keyword .thisWord, 3⟩, ⟨.mark .semicolon, 3⟩,
      ⟨.mark .rightCurly, 4⟩, ⟨.mark .rightCurly, 4⟩]
    let stop : Located := ⟨.endOfInput, 5⟩
    (parse 7 (before ++ [stop])).diagnostics = [] ∧
    Spells (Stmt.tokensAll (parse 7 (before ++ [stop])).program ++ [.endOfInput]) (before ++ [stop]) ∧
    Stmt.StratifiedAll (parse 7 (before ++ [stop])).program := by
  intro before stop
  have clean : (parse 7 (before ++ [stop])).diagnostics = [] := by decide +kernel
  exact ⟨clean, parse_sound 7 [] (by decide +kernel) rfl clean⟩

end Lox
