import Lox.Proofs.Syntax.Follow

/-!
The tokens of a tree of the grammar are read back as that tree. An expression is read at each level
from the loosest to its own. Operations of one level, and calls, fields and elements, group to the
left: reading finds the leftmost operand first and takes up one operation after the other.
-/

namespace Lox

open Parse

variable {c next last : Cursor} {n : Nat}

/-! ### Expressions -/

/-- The tokens of an expression are read back at a level, in front of all that may follow there. -/
def Expr.Returns (level : Level) (e : Expr) : Prop :=
  ∀ n c rest, c.Faces (e.tokens ++ rest) → Follows level rest →
    (exprAt n level).Yields c fun e' next => e'.erase = e.erase ∧ c.Reaches rest next

/-- Reading a left operand at a level and then what operates on it takes an expression up, and goes on
behind it. -/
def Expr.Leads (level : Level) (operations : Nat → Expr → Parse Expr) (e : Expr) : Prop :=
  ∀ n m c rest Q, c.Faces (e.tokens ++ rest) → Follows level rest →
    (∀ k e' next, e'.erase = e.erase → c.Reaches rest next → (operations k e').Yields next Q) →
    (exprAt n level >>= operations m).Yields c Q

theorem Expr.Returns.leads {level : Level} {operations : Nat → Expr → Parse Expr} {e : Expr}
    (returns : e.Returns level) : e.Leads level operations := by
  intro n m c rest Q faces follows behind
  exact (returns n c rest faces follows).bind fun e' next given => behind m e' next given.1 given.2

structure Expr.Complete (e : Expr) : Prop where
  returns : ∀ level, level ≤ e.level → e.Returns level
  operand : ∀ op : BinaryOp, op.level ≤ e.level →
    e.Leads op.level.tighter fun m => operationsOn m op.level
  object : .suffix ≤ e.level → e.Leads .primary suffixesOf

theorem operationsOn_stops {level : Level} {rest : List Token} {e : Expr} (n : Nat)
    (faces : c.Faces rest) (follows : Follows level rest) :
    (operationsOn n level e).Yields c fun e' next => e' = e ∧ next = c := by
  cases n with
  | zero => exact starve_yields
  | succ n =>
    refine peek_bind_yields faces.here ?_
    rw [follows.no_operator]
    exact pure_yields ⟨rfl, rfl⟩

theorem suffixesOf_stops {rest : List Token} {e : Expr} (n : Nat) (faces : c.Faces rest)
    (follows : Follows .suffix rest) :
    (suffixesOf n e).Yields c fun e' next => e' = e ∧ next = c := by
  cases n with
  | zero => exact starve_yields
  | succ n =>
    have other := follows.not_joint (Level.le_refl _)
    refine peek_bind_yields faces.here ?_
    split
    · next same => exact absurd (congrArg Token.joint? same) other
    · next same => exact absurd (congrArg Token.joint? same) other
    · next same => exact absurd (congrArg Token.joint? same) other
    · exact pure_yields ⟨rfl, rfl⟩

/-- An expression that is read at a level is read at the next looser one, where no operation of that
level follows. -/
theorem Expr.Returns.loosen {level : Level} {e : Expr} (tight : e.Returns level.tighter)
    (strata : e.Stratified) (less : level < e.level) : e.Returns level := by
  intro n c rest faces follows
  cases n with
  | zero => exact starve_yields
  | succ n =>
    have inner := tight n c rest faces (follows.tighten level.le_tighter)
    have operations : (do let left ← exprAt n level.tighter; operationsOn n level left).Yields c
        fun e' next => e'.erase = e.erase ∧ c.Reaches rest next := by
      refine inner.bind fun e' next given => ?_
      refine (operationsOn_stops n given.2.faces follows).imp ?_
      rintro _ _ ⟨rfl, rfl⟩
      exact given
    cases level with
    | assignment =>
      refine inner.bind fun e' next given => peek_bind_yields given.2.faces.here ?_
      have other : rest.headD .endOfInput ≠ .mark .equal := fun same =>
        follows.not_joint (Level.le_refl _) (congrArg Token.joint? same)
      rw [if_neg other]
      exact pure_yields given
    | conditional =>
      refine inner.bind fun e' next given => accept_bind_yields_left ?_ (pure_yields given)
      rw [given.2.faces.here]
      exact fun same => follows.not_joint (Level.le_refl _) (congrArg Token.joint? same)
    | unary =>
      refine peek_bind_yields faces.here ?_
      rw [e.head_not_unary strata (Level.tighter_le_of_lt less)]
      exact inner
    | suffix =>
      refine inner.bind fun e' next given => ?_
      refine (suffixesOf_stops n given.2.faces follows).imp ?_
      rintro _ _ ⟨rfl, rfl⟩
      exact given
    | primary => exact absurd less (Level.not_lt.mpr e.level.rank_le)
    | _ => exact operations

theorem Expr.Returns.at_looser {e : Expr} (strata : e.Stratified) (own : e.Returns e.level) :
    ∀ level, level ≤ e.level → e.Returns level := by
  suffices ∀ k (level : Level), level ≤ e.level → e.level.rank = level.rank + k → e.Returns level from
    fun level le => this (e.level.rank - level.rank) level le (Nat.add_sub_cancel' le).symm
  intro k
  induction k with
  | zero =>
    intro level _ same
    exact Level.eq_of_rank same ▸ own
  | succ k ih =>
    intro level _ same
    have less : level < e.level := by
      show level.rank < e.level.rank
      omega
    have step : level.tighter.rank = level.rank + 1 := by
      cases level with
      | primary => exact absurd less (Level.not_lt.mpr e.level.rank_le)
      | _ => rfl
    exact (ih level.tighter (Level.tighter_le_of_lt less) (by omega)).loosen strata less

theorem Expr.complete_of_own {e : Expr} (strata : e.Stratified) (own : e.Returns e.level)
    (operand : ∀ op : BinaryOp, op.level = e.level → e.Leads op.level.tighter fun m => operationsOn m op.level)
    (object : e.level = .suffix → e.Leads .primary suffixesOf) : e.Complete where
  returns := own.at_looser strata
  operand op le := by
    by_cases same : op.level = e.level
    · exact operand op same
    · have less : op.level < e.level :=
        Nat.lt_of_le_of_ne le fun rank => same (Level.eq_of_rank rank)
      exact (own.at_looser strata _ (Level.tighter_le_of_lt less)).leads
  object le := by
    by_cases same : e.level = .suffix
    · exact object same
    · have less : Level.suffix < e.level :=
        Nat.lt_of_le_of_ne le fun rank => same (Level.eq_of_rank rank).symm
      exact (own.at_looser strata _ (Level.tighter_le_of_lt less)).leads

/-- An expression that is neither an operation between operands nor one on an object. -/
theorem Expr.complete_of_returns {e : Expr} (strata : e.Stratified) (own : e.Returns e.level)
    (level : e.level = .assignment ∨ e.level = .conditional ∨ e.level = .unary ∨ e.level = .primary) :
    e.Complete := by
  refine complete_of_own strata own (fun op same => ?_) fun same => ?_
  · rw [← same] at level
    cases op <;> simp [BinaryOp.level] at level
  · simp [same] at level

theorem returns_binary {op : BinaryOp} {left right : Expr} (line : Nat)
    (left_leads : left.Leads op.level.tighter fun m => operationsOn m op.level)
    (right_returns : right.Returns op.level.tighter) :
    (Expr.binary op left right line).Leads op.level.tighter fun m => operationsOn m op.level := by
  intro n m c rest Q faces follows behind
  simp only [Expr.tokens, List.append_assoc, List.cons_append] at faces
  refine left_leads n m c _ Q faces ?_ fun k left' next sameLeft reached => ?_
  · exact follows_of_some _ op.joint?_token (by cases op <;> decide)
  cases k with
  | zero => exact starve_yields
  | succ k =>
    refine peek_bind_yields reached.faces.here_cons ?_
    have operator : op.level.operator? op.token = some op := Level.operator?_eq_some.mpr ⟨rfl, rfl⟩
    rw [operator]
    have taken := reached.faces.advance op.token_ne_end (by cases op <;> simp [BinaryOp.token])
    refine take_bind_yields ((right_returns k _ rest taken.faces follows).bind ?_)
    rintro right' last ⟨sameRight, passed⟩
    refine behind k _ last ?_ ((reached.trans taken).trans passed)
    simp [Expr.erase, sameLeft, sameRight]

theorem complete_binary {op : BinaryOp} {left right : Expr} {line : Nat}
    (strata : (Expr.binary op left right line).Stratified) (leftComplete : left.Complete)
    (rightComplete : right.Complete) : (Expr.binary op left right line).Complete := by
  have leads := returns_binary line (leftComplete.operand op strata.1.1)
    (rightComplete.returns _ strata.2.1)
  refine Expr.complete_of_own strata ?_ (fun other same => ?_) fun same => ?_
  · intro n c rest faces follows
    cases n with
    | zero => exact starve_yields
    | succ n =>
      have operations : exprAt (n + 1) op.level =
          (do let left ← exprAt n op.level.tighter; operationsOn n op.level left) := by
        cases op <;> rfl
      show (exprAt (n + 1) op.level).Yields c _
      rw [operations]
      refine leads n n c rest _ faces (follows.tighten op.level.le_tighter) ?_
      intro k e' next same reached
      refine (operationsOn_stops k reached.faces follows).imp ?_
      rintro _ _ ⟨rfl, rfl⟩
      exact ⟨same, reached⟩
  · have same : other.level = op.level := same
    rw [same]
    exact leads
  · exact absurd same (by cases op <;> simp [Expr.level, BinaryOp.level])

/-! ### Calls, fields and elements -/

/-- Tokens that end a list of expressions. -/
def Token.closesItems : Token → Bool
  | .mark .rightParen | .mark .rightSquare | .mark .semicolon => true
  | _ => false

theorem closesItems_apart {t : Token} (closes : t.closesItems = true) :
    t.joint? = none ∧ t.startsExpr = false ∧ t ≠ .endOfInput ∧ t ≠ .keyword .classWord := by
  unfold Token.closesItems at closes
  split at closes <;> simp_all [Token.joint?, Token.startsExpr, BinaryOp.ofToken?]

theorem moreItems_return {closing : Token} (closes : closing.closesItems = true) (es : List Expr)
    (each : ∀ e ∈ es, e.Returns .assignment) (n : Nat) (c : Cursor) (rest : List Token)
    (faces : c.Faces (Expr.moreTokens es ++ closing :: rest)) :
    (moreItems n closing).Yields c fun es' next =>
      Expr.eraseAll es' = Expr.eraseAll es ∧ c.Reaches rest next := by
  obtain ⟨joint, -, inside, plain⟩ := closesItems_apart closes
  induction es generalizing n c with
  | nil =>
    cases n with
    | zero => exact starve_yields
    | succ n =>
      have faces : c.Faces (closing :: rest) := faces
      refine accept_bind_yields_left ?_ (expect_bind_yields faces.here_cons ?_)
      · rintro same
        rw [faces.here_cons] at same
        simp [same, Token.joint?, BinaryOp.ofToken?] at joint
      · exact pure_yields ⟨rfl, faces.advance inside plain⟩
  | cons e es ih =>
    cases n with
    | zero => exact starve_yields
    | succ n =>
      simp only [Expr.moreTokens, List.append_assoc, List.cons_append] at faces
      refine accept_bind_yields faces.here_cons ?_
      have taken := faces.advance (by simp) (by simp)
      have follows : Follows .assignment (Expr.moreTokens es ++ closing :: rest) := by
        cases es with
        | nil => exact follows_of_none joint
        | cons _ _ => exact follows_of_some .comma rfl (by decide)
      refine (each e (by simp) n _ _ taken.faces follows).bind ?_
      rintro first c₁ ⟨sameFirst, reached₁⟩
      refine (ih (fun e member => each e (List.mem_cons_of_mem _ member)) n c₁ reached₁.faces).bind ?_
      rintro others c₂ ⟨sameOthers, reached₂⟩
      refine pure_yields ⟨?_, (taken.trans reached₁).trans reached₂⟩
      simp [Expr.eraseAll, sameFirst, sameOthers]

theorem items_return {closing : Token} (closes : closing.closesItems = true) (es : List Expr)
    (each : ∀ e ∈ es, e.Returns .assignment) (n : Nat) (c : Cursor) (rest : List Token)
    (faces : c.Faces (Expr.itemTokens es ++ closing :: rest)) :
    (items n closing).Yields c fun es' next =>
      Expr.eraseAll es' = Expr.eraseAll es ∧ c.Reaches rest next := by
  obtain ⟨joint, starts, inside, plain⟩ := closesItems_apart closes
  cases n with
  | zero => exact starve_yields
  | succ n =>
    cases es with
    | nil =>
      have faces : c.Faces (closing :: rest) := faces
      exact accept_bind_yields faces.here_cons (pure_yields ⟨rfl, faces.advance inside plain⟩)
    | cons e es =>
      simp only [Expr.itemTokens, List.append_assoc] at faces
      refine accept_bind_yields_left ?_ ?_
      · intro same
        have begins := e.head_starts (Expr.moreTokens es ++ closing :: rest)
        rw [← faces.here, same, starts] at begins
        cases begins
      have follows : Follows .assignment (Expr.moreTokens es ++ closing :: rest) := by
        cases es with
        | nil => exact follows_of_none joint
        | cons _ _ => exact follows_of_some .comma rfl (by decide)
      refine (each e (by simp) n _ _ faces follows).bind ?_
      rintro first c₁ ⟨sameFirst, reached₁⟩
      refine (moreItems_return closes es (fun e member => each e (List.mem_cons_of_mem _ member)) n c₁ rest
        reached₁.faces).bind ?_
      rintro others c₂ ⟨sameOthers, reached₂⟩
      refine pure_yields ⟨?_, reached₁.trans reached₂⟩
      simp [Expr.eraseAll, sameFirst, sameOthers]

/-- What extends an object is read as an expression of its own. -/
theorem Expr.Leads.own {e : Expr} (leads : e.Leads .primary suffixesOf) : e.Returns .suffix := by
  intro n c rest faces follows
  cases n with
  | zero => exact starve_yields
  | succ n =>
    refine leads n n c rest _ faces (follows.tighten (by decide)) fun k e' next same reached => ?_
    refine (suffixesOf_stops k reached.faces follows).imp ?_
    rintro _ _ ⟨rfl, rfl⟩
    exact ⟨same, reached⟩

theorem Expr.complete_of_leads {e : Expr} (strata : e.Stratified) (level : e.level = .suffix)
    (leads : e.Leads .primary suffixesOf) : e.Complete := by
  refine complete_of_own strata (level ▸ leads.own) (fun op same => ?_) fun _ => leads
  rw [level] at same
  cases op <;> simp [BinaryOp.level] at same

theorem follows_primary {t : Token} {rest : List Token} (joins : t.joint? = some .suffix) :
    Follows .primary (t :: rest) :=
  follows_of_some _ joins (by decide)

theorem complete_call {callee : Expr} {arguments : List Expr} {line : Nat}
    (strata : (Expr.call callee arguments line).Stratified) (object : callee.Leads .primary suffixesOf)
    (each : ∀ e ∈ arguments, e.Returns .assignment) : (Expr.call callee arguments line).Complete := by
  refine Expr.complete_of_leads strata rfl ?_
  intro n m c rest Q faces follows behind
  simp only [Expr.tokens, List.append_assoc, List.cons_append, List.nil_append] at faces
  refine object n m c _ Q faces (follows_primary rfl) fun k callee' next same reached => ?_
  cases k with
  | zero => exact starve_yields
  | succ k =>
    refine peek_bind_yields reached.faces.here_cons ?_
    have taken := reached.faces.advance (by simp) (by simp)
    refine take_bind_yields ((items_return rfl arguments each k _ rest taken.faces).bind ?_)
    rintro arguments' last ⟨sameArguments, passed⟩
    refine behind k _ last ?_ ((reached.trans taken).trans passed)
    simp [Expr.erase, same, sameArguments]

theorem complete_field {object : Expr} (name : String) (line : Nat)
    (strata : (Expr.field object name line).Stratified) (leads : object.Leads .primary suffixesOf) :
    (Expr.field object name line).Complete := by
  refine Expr.complete_of_leads strata rfl ?_
  intro n m c rest Q faces follows behind
  simp only [Expr.tokens, List.append_assoc, List.cons_append, List.nil_append] at faces
  refine leads n m c _ Q faces (follows_primary rfl) fun k object' next same reached => ?_
  cases k with
  | zero => exact starve_yields
  | succ k =>
    refine peek_bind_yields reached.faces.here_cons ?_
    have taken := reached.faces.advance (by simp) (by simp)
    refine take_bind_yields (identifier_bind_yields taken.faces.here_cons ?_)
    have named := taken.faces.advance (by simp) (by simp)
    refine behind k _ _ ?_ ((reached.trans taken).trans named)
    simp [Expr.erase, same]

theorem complete_element {sequence index : Expr} (line : Nat)
    (strata : (Expr.element sequence index line).Stratified) (leads : sequence.Leads .primary suffixesOf)
    (indexReturns : index.Returns .comma) : (Expr.element sequence index line).Complete := by
  refine Expr.complete_of_leads strata rfl ?_
  intro n m c rest Q faces follows behind
  simp only [Expr.tokens, List.append_assoc, List.cons_append, List.nil_append] at faces
  refine leads n m c _ Q faces (follows_primary rfl) fun k sequence' next same reached => ?_
  cases k with
  | zero => exact starve_yields
  | succ k =>
    refine peek_bind_yields reached.faces.here_cons ?_
    have taken := reached.faces.advance (by simp) (by simp)
    refine take_bind_yields ((indexReturns k _ _ taken.faces (follows_of_none rfl)).bind ?_)
    rintro index' last ⟨sameIndex, passed⟩
    refine expect_bind_yields passed.faces.here_cons ?_
    have closed := passed.faces.advance (by simp) (by simp)
    refine behind k _ _ ?_ (((reached.trans taken).trans passed).trans closed)
    simp [Expr.erase, same, sameIndex]

/-! ### Assignments -/

/-- What is assigned to decides the assignment, up to ids and lines. -/
theorem assigned?_erase {target target' value value' assignment : Expr}
    (made : target.assigned? value = some assignment) (sameTarget : target'.erase = target.erase)
    (sameValue : value'.erase = value.erase) :
    ∃ assignment', target'.assigned? value' = some assignment' ∧ assignment'.erase = assignment.erase := by
  cases target <;> simp [Expr.assigned?] at made <;> subst made <;>
    cases target' <;> simp [Expr.erase] at sameTarget <;>
    simp [Expr.assigned?, Expr.erase, sameTarget, sameValue]

theorem complete_assigned {value assignment : Expr} (target : Expr)
    (made : target.assigned? value = some assignment)
    (strata : assignment.Stratified) (targetReturns : target.Returns .conditional)
    (valueReturns : value.Returns .assignment) : assignment.Complete := by
  have level : assignment.level = .assignment := by
    unfold Expr.assigned? at made
    split at made <;> simp at made <;> subst made <;> rfl
  refine Expr.complete_of_returns strata ?_ (Or.inl level)
  rw [level]
  intro n c rest faces follows
  rw [assigned?_tokens made] at faces
  simp only [List.append_assoc, List.cons_append] at faces
  cases n with
  | zero => exact starve_yields
  | succ n =>
    refine (targetReturns n c _ faces (follows_of_some .assignment rfl (by decide))).bind ?_
    rintro target' c₁ ⟨sameTarget, reached₁⟩
    refine peek_bind_yields reached₁.faces.here_cons ?_
    rw [if_pos rfl]
    have taken := reached₁.faces.advance (by simp) (by simp)
    refine take_bind_yields ((valueReturns n _ rest taken.faces follows).bind ?_)
    rintro value' c₂ ⟨sameValue, reached₂⟩
    obtain ⟨assignment', made', same⟩ := assigned?_erase made sameTarget sameValue
    rw [made']
    exact pure_yields ⟨same, (reached₁.trans taken).trans reached₂⟩

/-! ### The other expressions -/

theorem complete_conditional {test consequent alternative : Expr}
    (strata : (Expr.conditional test consequent alternative).Stratified) (testReturns : test.Returns .or)
    (consequentReturns : consequent.Returns .assignment)
    (alternativeReturns : alternative.Returns .conditional) :
    (Expr.conditional test consequent alternative).Complete := by
  refine Expr.complete_of_returns strata ?_ (Or.inr (Or.inl rfl))
  intro n c rest faces follows
  simp only [Expr.tokens, List.append_assoc, List.cons_append] at faces
  cases n with
  | zero => exact starve_yields
  | succ n =>
    refine (testReturns n c _ faces (follows_of_some .conditional rfl (by decide))).bind ?_
    rintro test' c₁ ⟨sameTest, reached₁⟩
    refine accept_bind_yields reached₁.faces.here_cons ?_
    have asked := reached₁.faces.advance (by simp) (by simp)
    refine (consequentReturns n _ _ asked.faces (follows_of_none rfl)).bind ?_
    rintro consequent' c₂ ⟨sameConsequent, reached₂⟩
    refine expect_bind_yields reached₂.faces.here_cons ?_
    have divided := reached₂.faces.advance (by simp) (by simp)
    refine (alternativeReturns n _ rest divided.faces follows).bind ?_
    rintro alternative' c₃ ⟨sameAlternative, reached₃⟩
    refine pure_yields ⟨?_, (((reached₁.trans asked).trans reached₂).trans divided).trans reached₃⟩
    simp [Expr.erase, sameTest, sameConsequent, sameAlternative]

theorem complete_unary {op : UnaryOp} {operand : Expr} {line : Nat}
    (strata : (Expr.unary op operand line).Stratified) (operandReturns : operand.Returns .unary) :
    (Expr.unary op operand line).Complete := by
  refine Expr.complete_of_returns strata ?_ (Or.inr (Or.inr (Or.inl rfl)))
  intro n c rest faces follows
  simp only [Expr.tokens, List.cons_append] at faces
  cases n with
  | zero => exact starve_yields
  | succ n =>
    refine peek_bind_yields faces.here_cons ?_
    have operator : UnaryOp.ofToken? op.token = some op := UnaryOp.ofToken?_eq_some.mpr rfl
    rw [operator]
    have taken := faces.advance op.token_ne_end (by cases op <;> simp [UnaryOp.token])
    refine take_bind_yields ((operandReturns n _ rest taken.faces follows).bind ?_)
    rintro operand' last ⟨same, reached⟩
    refine pure_yields ⟨?_, taken.trans reached⟩
    simp [Expr.erase, same]

/-- An expression of the tightest level is complete if `primary` reads it. -/
theorem complete_primary {e : Expr} (strata : e.Stratified) (level : e.level = .primary)
    (reads : ∀ n c rest, c.Faces (e.tokens ++ rest) →
      (primary (n + 1)).Yields c fun e' next => e'.erase = e.erase ∧ c.Reaches rest next) : e.Complete := by
  refine Expr.complete_of_returns strata ?_ (Or.inr (Or.inr (Or.inr level)))
  rw [level]
  intro n c rest faces _
  match n with
  | 0 | 1 => exact starve_yields
  | n + 2 => exact reads n c rest faces

theorem complete_var (use : Use) : (Expr.var use).Complete := by
  refine complete_primary trivial rfl fun n c rest faces => peek_bind_yields faces.here_cons ?_
  have taken := faces.advance (by simp) (by simp)
  refine take_bind_yields (fresh_bind_yields (pure_yields ⟨?_, ?_⟩))
  · simp [Expr.erase, Use.erase]
  · exact taken.trans (Cursor.reaches_fresh taken.faces)

mutual

theorem Expr.complete : ∀ e : Expr, e.Stratified → e.Complete
  | .literal value, strata => by
    refine complete_primary strata rfl fun n c rest faces => peek_bind_yields faces.here_cons ?_
    have literal : Literal.ofToken? value.token = some value := Literal.ofToken?_eq_some.mpr rfl
    rw [literal]
    refine take_bind_yields (pure_yields ⟨rfl, faces.advance value.token_ne_end ?_⟩)
    match value with
    | .nil | .bool true | .bool false | .number _ | .string _ => simp [Literal.token]
  | .group inner, strata => by
    have returns := (inner.complete strata).returns .comma (Level.comma_le _)
    refine complete_primary strata rfl fun n c rest faces => ?_
    simp only [Expr.tokens, List.append_assoc, List.cons_append, List.nil_append] at faces
    refine peek_bind_yields faces.here_cons ?_
    have opened := faces.advance (by simp) (by simp)
    refine take_bind_yields ((returns n _ _ opened.faces (follows_of_none rfl)).bind ?_)
    rintro inner' c₁ ⟨same, reached⟩
    refine expect_bind_yields reached.faces.here_cons (pure_yields ⟨by simp [Expr.erase, same], ?_⟩)
    exact (opened.trans reached).trans (reached.faces.advance (by simp) (by simp))
  | .unary op operand line, strata =>
    complete_unary strata ((operand.complete strata.2).returns _ strata.1)
  | .binary op left right line, strata =>
    complete_binary strata (left.complete strata.1.2) (right.complete strata.2.2)
  | .conditional test consequent alternative, strata =>
    complete_conditional strata ((test.complete strata.1.2).returns _ strata.1.1)
      ((consequent.complete strata.2.1.2).returns _ strata.2.1.1)
      ((alternative.complete strata.2.2.2).returns _ strata.2.2.1)
  | .var use, _ => complete_var use
  | .assign target value, strata =>
    complete_assigned (.var target) rfl strata
      ((complete_var target).returns _ (show Level.conditional ≤ .primary by decide))
      ((value.complete strata.2).returns _ strata.1)
  | .thisRef id line, strata => by
    refine complete_primary strata rfl fun n c rest faces => peek_bind_yields faces.here_cons ?_
    have taken := faces.advance (by simp) (by simp)
    refine take_bind_yields (fresh_bind_yields (pure_yields ⟨rfl, ?_⟩))
    exact taken.trans (Cursor.reaches_fresh taken.faces)
  | .superRef id method line, strata => by
    refine complete_primary strata rfl fun n c rest faces => peek_bind_yields faces.here_cons ?_
    have taken := faces.advance (by simp) (by simp)
    refine take_bind_yields (expect_bind_yields taken.faces.here_cons ?_)
    have dotted := taken.faces.advance (by simp) (by simp)
    refine identifier_bind_yields dotted.faces.here_cons ?_
    have named := dotted.faces.advance (by simp) (by simp)
    refine fresh_bind_yields (pure_yields ⟨rfl, ?_⟩)
    exact ((taken.trans dotted).trans named).trans (Cursor.reaches_fresh named.faces)
  | .call callee arguments line, strata =>
    complete_call strata ((callee.complete strata.1.2).object strata.1.1)
      (Expr.return_all arguments strata.2)
  | .field object name line, strata =>
    complete_field name line strata ((object.complete strata.2).object strata.1)
  | .setField object name value line, strata =>
    have targetComplete := complete_field name line strata.1
      ((object.complete strata.1.2).object strata.1.1)
    complete_assigned (.field object name line) rfl strata
      (targetComplete.returns _ (show Level.conditional ≤ .suffix by decide))
      ((value.complete strata.2.2).returns _ strata.2.1)
  | .array elements, strata => by
    have each := Expr.return_all elements strata
    refine complete_primary strata rfl fun n c rest faces => ?_
    simp only [Expr.tokens, List.append_assoc, List.cons_append, List.nil_append] at faces
    refine peek_bind_yields faces.here_cons ?_
    have opened := faces.advance (by simp) (by simp)
    refine take_bind_yields ((items_return rfl elements each n _ rest opened.faces).bind ?_)
    rintro elements' c₁ ⟨same, reached⟩
    exact pure_yields ⟨by simp [Expr.erase, same], opened.trans reached⟩
  | .element sequence index line, strata =>
    complete_element line strata ((sequence.complete strata.1.2).object strata.1.1)
      ((index.complete strata.2).returns _ (Level.comma_le _))
  | .setElement sequence index value line, strata =>
    have targetComplete := complete_element line ⟨strata.1, strata.2.1⟩
      ((sequence.complete strata.1.2).object strata.1.1)
      ((index.complete strata.2.1).returns _ (Level.comma_le _))
    complete_assigned (.element sequence index line) rfl strata
      (targetComplete.returns _ (show Level.conditional ≤ .suffix by decide))
      ((value.complete strata.2.2.2).returns _ strata.2.2.1)

theorem Expr.return_all : ∀ es : List Expr, Expr.StratifiedAll es → ∀ e ∈ es, e.Returns .assignment
  | [], _, _, member => nomatch member
  | e :: es, strata, other, member => by
    rcases List.mem_cons.mp member with same | member
    · exact same ▸ (e.complete strata.1.2).returns _ strata.1.1
    · exact Expr.return_all es strata.2 other member

end

/-! ### Parts of statements -/

theorem Stmt.PlacedAt.reach {s : Stmt} {rest : List Token} (placed : s.PlacedAt c)
    (reached : c.Reaches rest next) : s.PlacedAt next := by
  unfold Stmt.PlacedAt at placed ⊢
  rwa [reached.loops, reached.functions]

theorem Stmt.PlacedAllAt.reach {ss : List Stmt} {rest : List Token} (placed : Stmt.PlacedAllAt c ss)
    (reached : c.Reaches rest next) : Stmt.PlacedAllAt next ss := by
  unfold Stmt.PlacedAllAt at placed ⊢
  rwa [reached.loops, reached.functions]

theorem Expr.returns_comma {e : Expr} (strata : e.Stratified) : e.Returns .comma :=
  (e.complete strata).returns .comma (Level.comma_le _)

theorem optionalExpr_returns {closing : Token} {rest : List Token} (closes : closing.closesItems = true)
    {e? : Option Expr} (strata : Expr.StratifiedOpt e?)
    (faces : c.Faces (Expr.optTokens e? ++ closing :: rest)) :
    (optionalExpr n closing).Yields c fun e'? next =>
      e'?.map Expr.erase = e?.map Expr.erase ∧ c.Reaches rest next := by
  obtain ⟨joint, starts, inside, plain⟩ := closesItems_apart closes
  cases e? with
  | none =>
    have faces : c.Faces (closing :: rest) := faces
    exact accept_bind_yields faces.here_cons (pure_yields ⟨rfl, faces.advance inside plain⟩)
  | some e =>
    have faces : c.Faces (e.tokens ++ closing :: rest) := faces
    refine accept_bind_yields_left ?_ ?_
    · intro same
      have begins := e.head_starts (closing :: rest)
      rw [← faces.here, same, starts] at begins
      cases begins
    refine (Expr.returns_comma (strata e rfl) n c _ faces (follows_of_none joint)).bind ?_
    rintro e' c₁ ⟨same, reached⟩
    refine expect_bind_yields reached.faces.here_cons (pure_yields ⟨by simp [same], ?_⟩)
    exact reached.trans (reached.faces.advance inside plain)

theorem parenExpr_returns {e : Expr} {rest : List Token} (strata : e.Stratified)
    (faces : c.Faces (.mark .leftParen :: (e.tokens ++ .mark .rightParen :: rest))) :
    (parenExpr n).Yields c fun e' next => e'.erase = e.erase ∧ c.Reaches rest next := by
  refine expect_bind_yields faces.here_cons ?_
  have opened := faces.advance (by simp) (by simp)
  refine (Expr.returns_comma strata n _ _ opened.faces (follows_of_none rfl)).bind ?_
  rintro e' c₁ ⟨same, reached⟩
  refine expect_bind_yields reached.faces.here_cons (pure_yields ⟨same, ?_⟩)
  exact (opened.trans reached).trans (reached.faces.advance (by simp) (by simp))

theorem exprStmt_returns {e : Expr} {rest : List Token} (strata : e.Stratified)
    (faces : c.Faces ((Stmt.expr e).tokens ++ rest)) :
    (exprStmt n).Yields c fun s' next => s'.erase = (Stmt.expr e).erase ∧ c.Reaches rest next := by
  simp only [Stmt.tokens, List.append_assoc, List.cons_append, List.nil_append] at faces
  refine (Expr.returns_comma strata n c _ faces (follows_of_none rfl)).bind ?_
  rintro e' c₁ ⟨same, reached⟩
  refine expect_bind_yields reached.faces.here_cons (pure_yields ⟨by simp [Stmt.erase, same], ?_⟩)
  exact reached.trans (reached.faces.advance (by simp) (by simp))

theorem varDecl_returns {name : String} {initial? : Option Expr} {line : Nat} {rest : List Token}
    (strata : Expr.StratifiedOpt initial?) (faces : c.Faces ((Stmt.varDecl name initial? line).tokens ++ rest)) :
    c.here.token = .keyword .varWord ∧ (varDecl n).Yields c.advance fun s' next =>
      s'.erase = (Stmt.varDecl name initial? line).erase ∧ c.Reaches rest next := by
  cases initial? with
  | none =>
    simp only [Stmt.tokens, List.cons_append, List.nil_append] at faces
    refine ⟨faces.here_cons, ?_⟩
    have taken := faces.advance (by simp) (by simp)
    refine identifier_bind_yields taken.faces.here_cons ?_
    have named := taken.faces.advance (by simp) (by simp)
    refine accept_bind_yields_left (by simp [named.faces.here_cons]) ?_
    refine expect_bind_yields named.faces.here_cons (pure_yields ⟨rfl, ?_⟩)
    exact (taken.trans named).trans (named.faces.advance (by simp) (by simp))
  | some initial =>
    simp only [Stmt.tokens, List.append_assoc, List.cons_append, List.nil_append] at faces
    refine ⟨faces.here_cons, ?_⟩
    have taken := faces.advance (by simp) (by simp)
    refine identifier_bind_yields taken.faces.here_cons ?_
    have named := taken.faces.advance (by simp) (by simp)
    refine accept_bind_yields named.faces.here_cons ?_
    have given := named.faces.advance (by simp) (by simp)
    refine (Expr.returns_comma (strata initial rfl) n _ _ given.faces (follows_of_none rfl)).bind ?_
    rintro initial' c₁ ⟨same, reached⟩
    refine expect_bind_yields reached.faces.here_cons (pure_yields ⟨by simp [Stmt.erase, same], ?_⟩)
    exact (((taken.trans named).trans given).trans reached).trans (reached.faces.advance (by simp) (by simp))

/-- The tokens of the first clause of a `for`. -/
def Stmt.initialTokens : Option Stmt → List Token
  | none => [.mark .semicolon]
  | some initial => initial.tokens

theorem forLoop_tokens {initial? : Option Stmt} {test? step? : Option Expr} {body : Stmt} :
    (Stmt.forLoop initial? test? step? body).tokens =
      .keyword .forWord :: .mark .leftParen :: (Stmt.initialTokens initial? ++ (Expr.optTokens test? ++
        .mark .semicolon :: (Expr.optTokens step? ++ .mark .rightParen :: body.tokens))) := by
  cases initial? <;> simp [Stmt.tokens, Stmt.initialTokens]

theorem forLoop_erase {initial? : Option Stmt} {test? step? : Option Expr} {body : Stmt} :
    (Stmt.forLoop initial? test? step? body).erase =
      .forLoop (initial?.map Stmt.erase) (test?.map Expr.erase) (step?.map Expr.erase) body.erase := by
  cases initial? <;> rfl

theorem forInitial_returns {initial? : Option Stmt} {rest : List Token}
    (kind : ∀ s, initial? = some s → s.Initial ∧ s.Stratified)
    (faces : c.Faces (Stmt.initialTokens initial? ++ rest)) :
    (forInitial n).Yields c fun initial'? next =>
      initial'?.map Stmt.erase = initial?.map Stmt.erase ∧ c.Reaches rest next := by
  match initial? with
  | none =>
    have faces : c.Faces (.mark .semicolon :: rest) := faces
    exact accept_bind_yields faces.here_cons
      (pure_yields ⟨rfl, faces.advance (by simp) (by simp)⟩)
  | some (.varDecl name initial? line) =>
    obtain ⟨here, reads⟩ := varDecl_returns (n := n) (kind _ rfl).2 faces
    refine accept_bind_yields_left (by simp [here]) (accept_bind_yields here (reads.bind ?_))
    rintro s' next ⟨same, reached⟩
    exact pure_yields ⟨by simp [same], reached⟩
  | some (.expr e) =>
    have starts := e.head_starts (.mark .semicolon :: rest)
    have here : c.here.token = (e.tokens ++ .mark .semicolon :: rest).headD .endOfInput := by
      rw [faces.here]
      simp [Stmt.initialTokens, Stmt.tokens]
    rw [← here] at starts
    refine accept_bind_yields_left ?_ (accept_bind_yields_left ?_ ?_)
    · rintro same
      rw [same] at starts
      cases starts
    · rintro same
      rw [same] at starts
      cases starts
    refine (exprStmt_returns (kind _ rfl).2 faces).bind ?_
    rintro s' next ⟨same, reached⟩
    exact pure_yields ⟨by simp [same], reached⟩
  | some (.print _ _) | some (.block _) | some (.ifElse _ _ _) | some (.whileLoop _ _)
  | some (.forLoop _ _ _ _) | some .breakLoop | some .continueLoop | some (.funDecl _)
  | some (.returnValue _ _) | some (.classDecl _ _ _ _) => exact (kind _ rfl).1.elim

theorem moreParams_return (names : List String) (rest : List Token) (n : Nat) (c : Cursor)
    (faces : c.Faces (moreParamTokens names ++ .mark .rightParen :: rest)) :
    (moreParams n).Yields c fun names' next => names' = names ∧ c.Reaches rest next := by
  induction names generalizing n c with
  | nil =>
    cases n with
    | zero => exact starve_yields
    | succ n =>
      have faces : c.Faces (.mark .rightParen :: rest) := faces
      refine accept_bind_yields_left (by simp [faces.here_cons]) ?_
      exact expect_bind_yields faces.here_cons (pure_yields ⟨rfl, faces.advance (by simp) (by simp)⟩)
  | cons name names ih =>
    cases n with
    | zero => exact starve_yields
    | succ n =>
      simp only [moreParamTokens, List.cons_append] at faces
      refine accept_bind_yields faces.here_cons ?_
      have taken := faces.advance (by simp) (by simp)
      refine identifier_bind_yields taken.faces.here_cons ?_
      have named := taken.faces.advance (by simp) (by simp)
      refine (ih n _ named.faces).bind ?_
      rintro _ next ⟨rfl, reached⟩
      exact pure_yields ⟨rfl, (taken.trans named).trans reached⟩

theorem params_return (names : List String) (rest : List Token)
    (faces : c.Faces (.mark .leftParen :: (paramTokens names ++ .mark .rightParen :: rest))) :
    (params n).Yields c fun names' next => names' = names ∧ c.Reaches rest next := by
  refine expect_bind_yields faces.here_cons ?_
  have opened := faces.advance (by simp) (by simp)
  cases names with
  | nil =>
    have faces : c.advance.Faces (.mark .rightParen :: rest) := opened.faces
    refine accept_bind_yields faces.here_cons (pure_yields ⟨rfl, ?_⟩)
    exact opened.trans (faces.advance (by simp) (by simp))
  | cons name names =>
    have faces : c.advance.Faces (.identifier name :: (moreParamTokens names ++ .mark .rightParen :: rest)) :=
      opened.faces
    refine accept_bind_yields_left (by simp [faces.here_cons]) (identifier_bind_yields faces.here_cons ?_)
    have named := faces.advance (by simp) (by simp)
    refine (moreParams_return names rest n _ named.faces).bind ?_
    rintro _ next ⟨rfl, reached⟩
    exact pure_yields ⟨rfl, (opened.trans named).trans reached⟩

theorem superclass_returns {name : String} {use? : Option Use} {rest : List Token}
    (faces : c.Faces (.keyword .classWord :: .identifier name ::
      (superclassTokens use? ++ .mark .leftCurly :: rest))) :
    c.advance.here.token = .identifier name ∧ superclass.Yields c.advance.advance fun use'? next =>
      use'?.map Use.erase = use?.map Use.erase ∧ c.Reaches (.mark .leftCurly :: rest) next := by
  rcases faces.advance_class with taken | ⟨_, us, same, named, coloned, taken⟩
  · refine ⟨taken.faces.here_cons, ?_⟩
    have named := taken.trans (taken.faces.advance (by simp) (by simp))
    cases use? with
    | none =>
      have faces : c.advance.advance.Faces (.mark .leftCurly :: rest) := named.faces
      exact acceptEither_bind_yields_left (by simp [faces.here_cons]) (pure_yields ⟨rfl, named⟩)
    | some use =>
      have faces : c.advance.advance.Faces (.mark .less :: .identifier use.name :: .mark .leftCurly :: rest) :=
        named.faces
      refine acceptEither_bind_yields (Or.inl faces.here_cons) ?_
      have marked := faces.advance (by simp) (by simp)
      refine identifier_bind_yields marked.faces.here_cons ?_
      have parented := marked.faces.advance (by simp) (by simp)
      refine fresh_bind_yields (pure_yields ⟨rfl, ?_⟩)
      exact ((named.trans marked).trans parented).trans (Cursor.reaches_fresh parented.faces)
  · cases use? with
    | none => simp [superclassTokens] at same
    | some use =>
      simp only [superclassTokens, List.cons_append, List.nil_append, List.cons.injEq,
        Token.identifier.injEq, true_and] at same
      obtain ⟨rfl, rfl⟩ := same
      refine ⟨named, acceptEither_bind_yields (Or.inr coloned) ?_⟩
      refine identifier_bind_yields taken.faces.here_cons ?_
      have parented := taken.faces.advance (by simp) (by simp)
      refine fresh_bind_yields (pure_yields ⟨rfl, ?_⟩)
      exact (taken.trans parented).trans (Cursor.reaches_fresh parented.faces)

/-! ### Statements -/

/-- An `if` without `else` at the end of a statement takes none behind it. -/
def Stmt.ClosedBy (s : Stmt) (rest : List Token) : Prop :=
  s.endsOpen = true → rest.headD .endOfInput ≠ .keyword .elseWord

/-- The tokens of a statement are read back as a statement. -/
def Stmt.Returns (s : Stmt) : Prop :=
  ∀ n c rest, s.PlacedAt c → c.Faces (s.tokens ++ rest) → s.ClosedBy rest →
    (statement n).Yields c fun s' next => s'.erase = s.erase ∧ c.Reaches rest next

/-- The tokens of a statement are read back among declarations. -/
def Stmt.Declares (s : Stmt) : Prop :=
  ∀ n c rest, s.PlacedAt c → c.Faces (s.tokens ++ rest) → s.ClosedBy rest →
    (declaration n).Yields c fun s'? next =>
      ∃ s', s'? = some s' ∧ s'.erase = s.erase ∧ c.Reaches rest next

def FunctionDecl.Returns (f : FunctionDecl) : Prop :=
  ∀ n c rest, c.Faces (f.tokens ++ rest) →
    (function n).Yields c fun f' next => f'.erase = f.erase ∧ c.Reaches rest next

theorem Stmt.Returns.declares {s : Stmt} (plain : s.Plain) (returns : s.Returns) : s.Declares := by
  intro n c rest placed faces closed
  cases n with
  | zero => exact starve_yields
  | succ n =>
    obtain ⟨notClass, notFun, notVar⟩ := s.head_plain plain rest
    refine Yields.recover (peek_bind_yields faces.here ?_)
    split
    · next same => exact absurd same notClass
    · next same => exact absurd same notFun
    · next same => exact absurd same notVar
    · exact returns n c rest placed faces closed

theorem declarations_return (ss : List Stmt) (each : ∀ s ∈ ss, s.Declares) (rest : List Token) (n : Nat)
    (c : Cursor) (placed : Stmt.PlacedAllAt c ss)
    (faces : c.Faces (Stmt.tokensAll ss ++ .mark .rightCurly :: rest)) :
    (declarations n).Yields c fun ss' next =>
      Stmt.eraseAll ss' = Stmt.eraseAll ss ∧ c.Reaches (.mark .rightCurly :: rest) next := by
  induction ss generalizing n c with
  | nil =>
    cases n with
    | zero => exact starve_yields
    | succ n =>
      have faces : c.Faces (.mark .rightCurly :: rest) := faces
      exact atBlockEnd_bind_yields true (by simp [faces.here_cons])
        (pure_yields ⟨rfl, .refl faces⟩)
  | cons s ss ih =>
    cases n with
    | zero => exact starve_yields
    | succ n =>
      simp only [Stmt.tokensAll, List.append_assoc] at faces
      have starts := s.starts (Stmt.tokensAll ss ++ .mark .rightCurly :: rest)
      obtain ⟨-, notClosing, notEnd⟩ := startsOther_apart starts
      refine atBlockEnd_bind_yields false
        (by simp [faces.here, notClosing, notEnd, -List.headD_eq_head?_getD]) ?_
      refine (each s (by simp) n c _ placed.1 faces fun _ => Stmt.tokensAll_head ss (by simp)).bind ?_
      rintro _ c₁ ⟨s', rfl, same, reached⟩
      have others : Stmt.PlacedAllAt c ss := placed.2
      refine (ih (fun t member => each t (List.mem_cons_of_mem _ member)) n c₁ (others.reach reached)
        reached.faces).bind ?_
      rintro others c₂ ⟨sameOthers, reachedOthers⟩
      refine pure_yields ⟨?_, reached.trans reachedOthers⟩
      simp [Stmt.eraseAll, same, sameOthers]

theorem block_returns {ss : List Stmt} {rest : List Token} (each : ∀ s ∈ ss, s.Declares)
    (placed : Stmt.PlacedAllAt c ss)
    (faces : c.Faces (.mark .leftCurly :: (Stmt.tokensAll ss ++ .mark .rightCurly :: rest))) :
    (braced (declarations n)).Yields c fun ss' next =>
      Stmt.eraseAll ss' = Stmt.eraseAll ss ∧ c.Reaches rest next := by
  refine expect_bind_yields faces.here_cons ?_
  have opened := faces.advance (by simp) (by simp)
  refine (declarations_return ss each rest n _ (placed.reach opened) opened.faces).bind ?_
  rintro ss' c₁ ⟨same, reached⟩
  refine expect_bind_yields reached.faces.here_cons (pure_yields ⟨same, ?_⟩)
  exact (opened.trans reached).trans (reached.faces.advance (by simp) (by simp))

theorem function_returns {name : String} {names : List String} {body : List Stmt} {line : Nat}
    (each : ∀ s ∈ body, s.Declares) (placed : Stmt.PlacedAll false true body) :
    FunctionDecl.Returns ⟨name, names, body, line⟩ := by
  intro n c rest faces
  simp only [FunctionDecl.tokens, List.append_assoc, List.cons_append, List.nil_append] at faces
  cases n with
  | zero => exact starve_yields
  | succ n =>
    refine identifier_bind_yields faces.here_cons ?_
    have named := faces.advance (by simp) (by simp)
    refine (params_return names _ named.faces).bind ?_
    rintro _ c₁ ⟨rfl, listed⟩
    refine Yields.bind (Yields.inFunction (P := fun body' next =>
      Stmt.eraseAll body' = Stmt.eraseAll body ∧ c₁.Reaches rest next) ?_) ?_
    · have faces := listed.faces.nested 0 (c₁.functions + 1)
      refine (block_returns each ?_ faces).imp ?_
      · simpa [Stmt.PlacedAllAt] using placed
      · rintro body' next ⟨same, reached⟩
        exact ⟨same, reached.faces, reached.diagnostics, rfl, rfl⟩
    · rintro body' next ⟨same, reached⟩
      refine pure_yields ⟨?_, (named.trans listed).trans reached⟩
      simp [FunctionDecl.erase, same]

theorem methods_return (fs : List FunctionDecl) (each : ∀ f ∈ fs, f.Returns) (rest : List Token) (n : Nat)
    (c : Cursor) (faces : c.Faces (FunctionDecl.tokensAll fs ++ .mark .rightCurly :: rest)) :
    (methods n).Yields c fun fs' next =>
      FunctionDecl.eraseAll fs' = FunctionDecl.eraseAll fs ∧ c.Reaches (.mark .rightCurly :: rest) next := by
  induction fs generalizing n c with
  | nil =>
    cases n with
    | zero => exact starve_yields
    | succ n =>
      have faces : c.Faces (.mark .rightCurly :: rest) := faces
      exact atBlockEnd_bind_yields true (by simp [faces.here_cons])
        (pure_yields ⟨rfl, .refl faces⟩)
  | cons f fs ih =>
    cases n with
    | zero => exact starve_yields
    | succ n =>
      simp only [FunctionDecl.tokensAll, List.append_assoc] at faces
      obtain ⟨name, names, body, line⟩ := f
      refine atBlockEnd_bind_yields false (by simp [faces.here, FunctionDecl.tokens]) ?_
      refine (each _ (by simp) n c _ faces).bind ?_
      rintro f' c₁ ⟨same, reached⟩
      refine (ih (fun g member => each g (List.mem_cons_of_mem _ member)) n c₁ reached.faces).bind ?_
      rintro others c₂ ⟨sameOthers, reachedOthers⟩
      refine pure_yields ⟨?_, reached.trans reachedOthers⟩
      simp [FunctionDecl.eraseAll, same, sameOthers]

/-- A statement under a condition, as the body of a loop. -/
theorem loop_returns {body : Stmt} {rest : List Token} (returns : body.Returns)
    (placed : body.Placed true (decide (0 < c.functions))) (faces : c.Faces (body.tokens ++ rest))
    (closed : body.ClosedBy rest) :
    (inLoop (statement n)).Yields c fun body' next => body'.erase = body.erase ∧ c.Reaches rest next := by
  refine Yields.inLoop ((returns n _ rest ?_ (faces.nested _ _) closed).imp ?_)
  · simpa [Stmt.PlacedAt] using placed
  · rintro body' next ⟨same, reached⟩
    exact ⟨same, reached.faces, reached.diagnostics, rfl, rfl⟩

structure Stmt.Complete (s : Stmt) : Prop where
  returns : s.Plain → s.Returns
  declares : s.Declares

theorem Stmt.Returns.complete {s : Stmt} (plain : s.Plain) (returns : s.Returns) : s.Complete :=
  ⟨fun _ => returns, returns.declares plain⟩

theorem complete_expr {e : Expr} (strata : e.Stratified) : (Stmt.expr e).Complete := by
  refine Stmt.Returns.complete trivial fun n c rest _ faces _ => ?_
  cases n with
  | zero => exact starve_yields
  | succ n =>
    have starts := e.head_starts (.mark .semicolon :: rest)
    have here : c.here.token = (e.tokens ++ .mark .semicolon :: rest).headD .endOfInput := by
      rw [faces.here]
      simp [Stmt.tokens]
    refine peek_bind_yields here ?_
    split
    -- No other statement starts with a token that an expression starts with.
    case h_9 => exact exprStmt_returns strata faces
    all_goals
      next same =>
      rw [same] at starts
      cases starts

theorem complete_print {items : List Expr} {line : Nat} (some : items ≠ [])
    (each : ∀ e ∈ items, e.Returns .assignment) : (Stmt.print items line).Complete := by
  refine Stmt.Returns.complete trivial fun n c rest _ faces _ => ?_
  cases items with
  | nil => exact absurd rfl some
  | cons e es =>
    simp only [Stmt.tokens, Expr.itemTokens, List.append_assoc, List.cons_append, List.nil_append] at faces
    cases n with
    | zero => exact starve_yields
    | succ n =>
      refine peek_bind_yields faces.here_cons ?_
      have taken := faces.advance (by simp) (by simp)
      have follows : Follows .assignment (Expr.moreTokens es ++ .mark .semicolon :: rest) := by
        cases es with
        | nil => exact follows_of_none rfl
        | cons _ _ => exact follows_of_some .comma rfl (by decide)
      refine take_bind_yields ((each e (by simp) n _ _ taken.faces follows).bind ?_)
      rintro first c₁ ⟨sameFirst, reached₁⟩
      refine (moreItems_return rfl es (fun e member => each e (List.mem_cons_of_mem _ member)) n c₁ rest
        reached₁.faces).bind ?_
      rintro others c₂ ⟨sameOthers, reached₂⟩
      refine pure_yields ⟨?_, (taken.trans reached₁).trans reached₂⟩
      simp [Stmt.erase, Expr.eraseAll, sameFirst, sameOthers]

theorem complete_block {body : List Stmt} (each : ∀ s ∈ body, s.Declares) : (Stmt.block body).Complete := by
  refine Stmt.Returns.complete trivial fun n c rest placed faces _ => ?_
  simp only [Stmt.tokens, List.append_assoc, List.cons_append, List.nil_append] at faces
  cases n with
  | zero => exact starve_yields
  | succ n =>
    refine peek_bind_yields faces.here_cons ((block_returns each placed faces).bind ?_)
    rintro body' next ⟨same, reached⟩
    exact pure_yields ⟨by simp [Stmt.erase, same], reached⟩

theorem complete_if {test : Expr} {consequent : Stmt} (strata : test.Stratified)
    (returns : consequent.Returns) : (Stmt.ifElse test consequent none).Complete := by
  refine Stmt.Returns.complete trivial fun n c rest placed faces closed => ?_
  simp only [Stmt.tokens, List.append_assoc, List.cons_append] at faces
  cases n with
  | zero => exact starve_yields
  | succ n =>
    refine peek_bind_yields faces.here_cons ?_
    have taken := faces.advance (by simp) (by simp)
    refine take_bind_yields ((parenExpr_returns strata taken.faces).bind ?_)
    rintro test' c₁ ⟨sameTest, reached₁⟩
    have before := taken.trans reached₁
    have placed : consequent.PlacedAt c := placed
    refine (returns n c₁ rest (placed.reach before) reached₁.faces fun _ => closed rfl).bind ?_
    rintro consequent' c₂ ⟨sameConsequent, reached₂⟩
    refine accept_bind_yields_left (reached₂.faces.here ▸ closed rfl) ?_
    exact pure_yields ⟨by simp [Stmt.erase, sameTest, sameConsequent], before.trans reached₂⟩

theorem complete_ifElse {test : Expr} {consequent alternative : Stmt} (strata : test.Stratified)
    (shut : consequent.endsOpen = false) (first : consequent.Returns) (second : alternative.Returns) :
    (Stmt.ifElse test consequent (some alternative)).Complete := by
  refine Stmt.Returns.complete trivial fun n c rest placed faces closed => ?_
  simp only [Stmt.tokens, List.append_assoc, List.cons_append] at faces
  cases n with
  | zero => exact starve_yields
  | succ n =>
    refine peek_bind_yields faces.here_cons ?_
    have taken := faces.advance (by simp) (by simp)
    refine take_bind_yields ((parenExpr_returns strata taken.faces).bind ?_)
    rintro test' c₁ ⟨sameTest, reached₁⟩
    have before := taken.trans reached₁
    have placed₁ : consequent.PlacedAt c := placed.1
    have placed₂ : alternative.PlacedAt c := placed.2
    have taken₁ : consequent.ClosedBy (.keyword .elseWord :: (alternative.tokens ++ rest)) :=
      fun opens => by simp [shut] at opens
    refine (first n c₁ _ (placed₁.reach before) reached₁.faces taken₁).bind ?_
    rintro consequent' c₂ ⟨sameConsequent, reached₂⟩
    refine accept_bind_yields reached₂.faces.here_cons ?_
    have before := (before.trans reached₂).trans (reached₂.faces.advance (by simp) (by simp))
    refine (second n _ rest (placed₂.reach before) before.faces closed).bind ?_
    rintro alternative' c₃ ⟨sameAlternative, reached₃⟩
    refine pure_yields ⟨?_, before.trans reached₃⟩
    simp [Stmt.erase, sameTest, sameConsequent, sameAlternative]

theorem complete_while {test : Expr} {body : Stmt} (strata : test.Stratified) (returns : body.Returns) :
    (Stmt.whileLoop test body).Complete := by
  refine Stmt.Returns.complete trivial fun n c rest placed faces closed => ?_
  simp only [Stmt.tokens, List.append_assoc, List.cons_append] at faces
  cases n with
  | zero => exact starve_yields
  | succ n =>
    refine peek_bind_yields faces.here_cons ?_
    have taken := faces.advance (by simp) (by simp)
    refine take_bind_yields ((parenExpr_returns strata taken.faces).bind ?_)
    rintro test' c₁ ⟨sameTest, reached₁⟩
    have before := taken.trans reached₁
    have placed : body.Placed true (decide (0 < c₁.functions)) := before.functions ▸ placed
    refine (loop_returns returns placed reached₁.faces closed).bind ?_
    rintro body' c₂ ⟨sameBody, reached₂⟩
    exact pure_yields ⟨by simp [Stmt.erase, sameTest, sameBody], before.trans reached₂⟩

theorem complete_for {initial? : Option Stmt} {test? step? : Option Expr} {body : Stmt}
    (kind : ∀ s, initial? = some s → s.Initial ∧ s.Stratified) (test : Expr.StratifiedOpt test?)
    (step : Expr.StratifiedOpt step?) (returns : body.Returns) :
    (Stmt.forLoop initial? test? step? body).Complete := by
  refine Stmt.Returns.complete trivial fun n c rest placed faces closed => ?_
  simp only [forLoop_tokens, List.append_assoc, List.cons_append] at faces
  cases n with
  | zero => exact starve_yields
  | succ n =>
    refine peek_bind_yields faces.here_cons ?_
    have taken := faces.advance (by simp) (by simp)
    refine take_bind_yields (expect_bind_yields taken.faces.here_cons ?_)
    have opened := taken.trans (taken.faces.advance (by simp) (by simp))
    refine (forInitial_returns kind opened.faces).bind ?_
    rintro initial'? c₁ ⟨sameInitial, reached₁⟩
    refine (optionalExpr_returns rfl test reached₁.faces).bind ?_
    rintro test'? c₂ ⟨sameTest, reached₂⟩
    refine (optionalExpr_returns rfl step reached₂.faces).bind ?_
    rintro step'? c₃ ⟨sameStep, reached₃⟩
    have before := ((opened.trans reached₁).trans reached₂).trans reached₃
    have placed : body.Placed true (decide (0 < c₃.functions)) := by
      rw [before.functions]
      cases initial? with
      | none => exact placed
      | some _ => exact placed.2
    refine (loop_returns returns placed reached₃.faces closed).bind ?_
    rintro body' c₄ ⟨sameBody, reached₄⟩
    refine pure_yields ⟨?_, before.trans reached₄⟩
    simp [forLoop_erase, sameInitial, sameTest, sameStep, sameBody]

/-- A jump out of a loop is read up to its semicolon. -/
theorem loopJump_yields {jump : Keyword} {error : StaticError} {s : Stmt} {rest : List Token}
    (other : jump ≠ .classWord) (inside : 0 < c.loops) (faces : c.Faces (.keyword jump :: .mark .semicolon :: rest)) :
    Parse.Yields (do
      let _ ← takeJump loopDepth error
      expect (.mark .semicolon)
      return s) c fun s' next => s'.erase = s.erase ∧ c.Reaches rest next := by
  have taken := faces.advance (by simp) (by simp [other])
  refine takeJump_bind_yields (fun _ => rfl) (Nat.ne_of_gt (taken.loops ▸ inside)) ?_
  refine expect_bind_yields taken.faces.here_cons (pure_yields ⟨rfl, ?_⟩)
  exact taken.trans (taken.faces.advance (by simp) (by simp))

theorem complete_break : Stmt.breakLoop.Complete := by
  refine Stmt.Returns.complete trivial fun n c rest placed faces _ => ?_
  cases n with
  | zero => exact starve_yields
  | succ n =>
    have faces : c.Faces (.keyword .breakWord :: .mark .semicolon :: rest) := faces
    exact peek_bind_yields faces.here_cons (loopJump_yields (by simp) (of_decide_eq_true placed) faces)

theorem complete_continue : Stmt.continueLoop.Complete := by
  refine Stmt.Returns.complete trivial fun n c rest placed faces _ => ?_
  cases n with
  | zero => exact starve_yields
  | succ n =>
    have faces : c.Faces (.keyword .continueWord :: .mark .semicolon :: rest) := faces
    exact peek_bind_yields faces.here_cons (loopJump_yields (by simp) (of_decide_eq_true placed) faces)

theorem complete_return {value? : Option Expr} {line : Nat} (strata : Expr.StratifiedOpt value?) :
    (Stmt.returnValue value? line).Complete := by
  refine Stmt.Returns.complete trivial fun n c rest placed faces _ => ?_
  simp only [Stmt.tokens, List.append_assoc, List.cons_append, List.nil_append] at faces
  cases n with
  | zero => exact starve_yields
  | succ n =>
    refine peek_bind_yields faces.here_cons ?_
    have taken := faces.advance (by simp) (by simp)
    have inside : 0 < c.advance.functions := taken.functions ▸ of_decide_eq_true placed
    refine takeJump_bind_yields (fun _ => rfl) (Nat.ne_of_gt inside) ?_
    refine (optionalExpr_returns rfl strata taken.faces).bind ?_
    rintro value'? next ⟨same, reached⟩
    exact pure_yields ⟨by simp [Stmt.erase, same], taken.trans reached⟩

theorem complete_varDecl {name : String} {initial? : Option Expr} {line : Nat}
    (strata : Expr.StratifiedOpt initial?) : (Stmt.varDecl name initial? line).Complete := by
  refine ⟨fun plain => plain.elim, fun n c rest _ faces _ => ?_⟩
  cases n with
  | zero => exact starve_yields
  | succ n =>
    obtain ⟨here, reads⟩ := varDecl_returns (n := n) strata faces
    exact Yields.recover (peek_bind_yields here (take_bind_yields reads))

theorem complete_funDecl {f : FunctionDecl} (returns : f.Placed → f.Returns) :
    (Stmt.funDecl f).Complete := by
  refine ⟨fun plain => plain.elim, fun n c rest placed faces _ => ?_⟩
  simp only [Stmt.tokens, List.cons_append] at faces
  cases n with
  | zero => exact starve_yields
  | succ n =>
    have taken := faces.advance (by simp) (by simp)
    refine Yields.recover (peek_bind_yields faces.here_cons (take_bind_yields ?_))
    refine (returns placed n _ rest taken.faces).bind ?_
    rintro f' next ⟨same, reached⟩
    exact pure_yields ⟨by simp [Stmt.erase, same], taken.trans reached⟩

theorem complete_class {name : String} {superclass? : Option Use} {fs : List FunctionDecl} {line : Nat}
    (each : FunctionDecl.PlacedAll fs → ∀ f ∈ fs, f.Returns) :
    (Stmt.classDecl name superclass? fs line).Complete := by
  refine ⟨fun plain => plain.elim, fun n c rest placed faces _ => ?_⟩
  simp only [Stmt.tokens, List.append_assoc, List.cons_append, List.nil_append] at faces
  cases n with
  | zero => exact starve_yields
  | succ n =>
    refine Yields.recover (peek_bind_yields faces.here_cons (take_bind_yields ?_))
    obtain ⟨named, inherits⟩ := superclass_returns faces
    refine identifier_bind_yields named (inherits.bind ?_)
    rintro use'? c₁ ⟨sameUse, reached₁⟩
    refine Yields.bind (P := fun fs' next =>
      FunctionDecl.eraseAll fs' = FunctionDecl.eraseAll fs ∧ c.Reaches rest next) ?_ ?_
    · refine expect_bind_yields reached₁.faces.here_cons ?_
      have opened := reached₁.trans (reached₁.faces.advance (by simp) (by simp))
      refine (methods_return fs (each placed) rest n _ opened.faces).bind ?_
      rintro fs' c₂ ⟨same, reached₂⟩
      refine expect_bind_yields reached₂.faces.here_cons (pure_yields ⟨same, ?_⟩)
      exact (opened.trans reached₂).trans (reached₂.faces.advance (by simp) (by simp))
    · rintro fs' next ⟨same, reached⟩
      exact pure_yields ⟨by simp [Stmt.erase, sameUse, same], reached⟩

mutual

theorem Stmt.complete : ∀ s : Stmt, s.Stratified → s.Complete
  | .expr _, strata => complete_expr strata
  | .print items _, strata => complete_print strata.1 (Expr.return_all items strata.2)
  | .varDecl _ _ _, strata => complete_varDecl strata
  | .block body, strata => complete_block (Stmt.declare_all body strata)
  | .ifElse _ consequent none, strata =>
    complete_if strata.1 ((consequent.complete strata.2.2).returns strata.2.1)
  | .ifElse _ consequent (some alternative), strata =>
    complete_ifElse strata.1 strata.2.1.2.2
      ((consequent.complete strata.2.1.2.1).returns strata.2.1.1)
      ((alternative.complete strata.2.2.2).returns strata.2.2.1)
  | .whileLoop _ body, strata => complete_while strata.1 ((body.complete strata.2.2).returns strata.2.1)
  | .forLoop none _ _ body, strata =>
    complete_for (fun _ same => nomatch same) strata.1 strata.2.1
      ((body.complete strata.2.2.2).returns strata.2.2.1)
  | .forLoop (some _) _ _ body, strata =>
    complete_for (fun _ same => Option.some.inj same ▸ strata.1) strata.2.1 strata.2.2.1
      ((body.complete strata.2.2.2.2).returns strata.2.2.2.1)
  | .breakLoop, _ => complete_break
  | .continueLoop, _ => complete_continue
  | .funDecl f, strata => complete_funDecl (f.returns strata)
  | .returnValue _ _, strata => complete_return strata
  | .classDecl _ _ methods _, strata => complete_class (FunctionDecl.return_all methods strata)

theorem FunctionDecl.returns : ∀ f : FunctionDecl, f.Stratified → f.Placed → f.Returns
  | { name := _, params := _, body, line := _ }, strata, placed =>
    function_returns (Stmt.declare_all body strata) placed

theorem Stmt.declare_all : ∀ ss : List Stmt, Stmt.StratifiedAll ss → ∀ s ∈ ss, s.Declares
  | [], _, _, member => nomatch member
  | s :: ss, strata, other, member => by
    rcases List.mem_cons.mp member with same | member
    · exact same ▸ (s.complete strata.1).declares
    · exact Stmt.declare_all ss strata.2 other member

theorem FunctionDecl.return_all : ∀ fs : List FunctionDecl, FunctionDecl.StratifiedAll fs →
    FunctionDecl.PlacedAll fs → ∀ f ∈ fs, f.Returns
  | [], _, _, _, member => nomatch member
  | f :: fs, strata, placed, other, member => by
    rcases List.mem_cons.mp member with same | member
    · exact same ▸ f.returns strata.1 placed.1
    · exact FunctionDecl.return_all fs strata.2 placed.2 other member

end

/-! ### Whole programs -/

/-- A program of the grammar. -/
structure Stmt.WellFormed (program : List Stmt) : Prop where
  strata : Stmt.StratifiedAll program
  placed : Stmt.PlacedAll false false program

theorem program_returns (ss : List Stmt) (each : ∀ s ∈ ss, s.Declares) (n : Nat) (c : Cursor)
    (placed : Stmt.PlacedAllAt c ss) (faces : c.Faces (Stmt.tokensAll ss ++ [.endOfInput])) :
    (program n).Yields c fun ss' next =>
      Stmt.eraseAll ss' = Stmt.eraseAll ss ∧ next.diagnostics = c.diagnostics := by
  induction ss generalizing n c with
  | nil =>
    cases n with
    | zero => exact starve_yields
    | succ n => exact peek_bind_yields faces.here (pure_yields ⟨rfl, rfl⟩)
  | cons s ss ih =>
    cases n with
    | zero => exact starve_yields
    | succ n =>
      simp only [Stmt.tokensAll, List.append_assoc] at faces
      obtain ⟨-, -, notEnd⟩ := startsOther_apart (s.starts (Stmt.tokensAll ss ++ [.endOfInput]))
      refine peek_bind_yields faces.here ?_
      rw [if_neg notEnd]
      refine (each s (by simp) n c _ placed.1 faces fun _ => Stmt.tokensAll_head ss (by simp)).bind ?_
      rintro _ c₁ ⟨s', rfl, same, reached⟩
      have others : Stmt.PlacedAllAt c ss := placed.2
      refine (ih (fun t member => each t (List.mem_cons_of_mem _ member)) n c₁ (others.reach reached)
        reached.faces).bind ?_
      rintro others c₂ ⟨sameOthers, clean⟩
      refine pure_yields ⟨?_, clean.trans reached.diagnostics⟩
      simp [Stmt.eraseAll, same, sameOthers]

theorem Spells.getLast_end {ts : List Token} {ls : List Located} (spells : Spells ts ls)
    (ends : ts.getLast? = some .endOfInput) : ∃ l, ls.getLast? = some l ∧ l.token = .endOfInput := by
  induction spells with
  | nil => simp at ends
  | cons t line behind ih =>
    cases behind with
    | nil => exact ⟨_, rfl, by simpa using ends⟩
    | _ =>
      simp only [List.getLast?_cons_cons] at ends ih ⊢
      exact ih ends
  | colon name first second third behind ih =>
    cases behind with
    | nil => simp at ends
    | _ =>
      simp only [List.getLast?_cons_cons] at ends ih ⊢
      exact ih ends

theorem closed_of_spells {ts : List Token} {tokens : List Located}
    (spells : Spells (ts ++ [.endOfInput]) tokens) : closed tokens = tokens := by
  obtain ⟨l, last, ends⟩ := spells.getLast_end (by simp)
  simp [closed, last, ends]

theorem parse_returns {program : List Stmt} {tokens : List Located} (nextId : Nat)
    (wellFormed : Stmt.WellFormed program)
    (spells : Spells (Stmt.tokensAll program ++ [.endOfInput]) tokens) :
    (parse nextId tokens).diagnostics = [] ∧
    Stmt.eraseAll (parse nextId tokens).program = Stmt.eraseAll program := by
  have faces : (Cursor.start nextId tokens).Faces (Stmt.tokensAll program ++ [.endOfInput]) := by
    unfold Cursor.Faces Cursor.start
    rw [closed_of_spells spells]
    exact spells
  have placed : Stmt.PlacedAllAt (Cursor.start nextId tokens) program := wellFormed.placed
  have yields := program_returns program (Stmt.declare_all program wellFormed.strata) (depthFor tokens) _
    placed faces
  rcases yields with starved | ⟨statements, last, read, same, clean⟩
  · exact absurd starved (program_answers_start nextId tokens)
  · unfold parse
    rw [read]
    exact ⟨clean, same⟩

/-- The tokens end with the end of the input, and it stands nowhere else among them. -/
def Ended (tokens : List Located) : Prop :=
  ∃ before stop, tokens = before ++ [stop] ∧ stop.token = .endOfInput ∧
    ∀ l ∈ before, l.token ≠ .endOfInput

/-- Reading gives back each program of the grammar from its tokens, up to ids and lines, and reports
nothing. It accepts exactly the tokens of such programs. -/
theorem parse_complete (nextId : Nat) (tokens : List Located) :
    (∀ program, Stmt.WellFormed program → Spells (Stmt.tokensAll program ++ [.endOfInput]) tokens →
      (parse nextId tokens).diagnostics = [] ∧
      Stmt.eraseAll (parse nextId tokens).program = Stmt.eraseAll program) ∧
    (Ended tokens → ((parse nextId tokens).diagnostics = [] ↔
      ∃ program, Stmt.WellFormed program ∧ Spells (Stmt.tokensAll program ++ [.endOfInput]) tokens)) := by
  refine ⟨fun program wellFormed spells => parse_returns nextId wellFormed spells, ?_⟩
  rintro ⟨before, stop, rfl, stopped, inside⟩
  constructor
  · intro clean
    obtain ⟨spells, strata, placed⟩ := parse_all_read inside stopped clean
    exact ⟨_, ⟨strata, placed⟩, spells.append (stopped ▸ .cons stop.token stop.line .nil)⟩
  · rintro ⟨program, wellFormed, spells⟩
    exact (parse_returns nextId wellFormed spells).1

theorem parse_complete_inherits :
    let program : List Stmt := [.classDecl "A" (some ⟨3, "B", 1⟩)
      [⟨"m", ["x", "y"], [.ifElse (.var ⟨0, "x", 0⟩)
        (.returnValue (some (.setField (.field (.var ⟨1, "x", 0⟩) "f" 0) "g"
          (.binary .add (.unary .not (.var ⟨2, "y", 0⟩) 0) (.call (.superRef 0 "m" 0) [] 0) 0) 0)) 2)
        (some (.forLoop none none none (.breakLoop)))], 1⟩] 1]
    let before : List Located := [⟨.keyword .classWord, 1⟩, ⟨.identifier "A", 1⟩, ⟨.mark .colon, 1⟩,
      ⟨.identifier "B", 1⟩, ⟨.mark .leftCurly, 1⟩, ⟨.identifier "m", 2⟩, ⟨.mark .leftParen, 2⟩,
      ⟨.identifier "x", 2⟩, ⟨.mark .comma, 2⟩, ⟨.identifier "y", 2⟩, ⟨.mark .rightParen, 2⟩,
      ⟨.mark .leftCurly, 2⟩, ⟨.keyword .ifWord, 3⟩, ⟨.mark .leftParen, 3⟩, ⟨.identifier "x", 3⟩,
      ⟨.mark .rightParen, 3⟩, ⟨.keyword .returnWord, 3⟩, ⟨.identifier "x", 3⟩, ⟨.mark .dot, 3⟩,
      ⟨.identifier "f", 3⟩, ⟨.mark .dot, 3⟩, ⟨.identifier "g", 3⟩, ⟨.mark .equal, 3⟩, ⟨.mark .bang, 3⟩,
      ⟨.identifier "y", 3⟩, ⟨.mark .plus, 3⟩, ⟨.keyword .superWord, 3⟩, ⟨.mark .dot, 3⟩,
      ⟨.identifier "m", 3⟩, ⟨.mark .leftParen, 3⟩, ⟨.mark .rightParen, 3⟩, ⟨.mark .semicolon, 3⟩,
      ⟨.keyword .elseWord, 4⟩, ⟨.keyword .forWord, 4⟩, ⟨.mark .leftParen, 4⟩, ⟨.mark .semicolon, 4⟩,
      ⟨.mark .semicolon, 4⟩, ⟨.mark .rightParen, 4⟩, ⟨.keyword .breakWord, 4⟩, ⟨.mark .semicolon, 4⟩,
      ⟨.mark .rightCurly, 5⟩, ⟨.mark .rightCurly, 5⟩]
    let tokens := before ++ [⟨.endOfInput, 5⟩]
    (Stmt.WellFormed program ∧ Spells (Stmt.tokensAll program ++ [.endOfInput]) tokens ∧ Ended tokens) ∧
    ((parse 9 tokens).diagnostics = [] ∧
      Stmt.eraseAll (parse 9 tokens).program = Stmt.eraseAll program) ∧
    ((parse 9 tokens).diagnostics = [] ↔ ∃ program, Stmt.WellFormed program ∧
      Spells (Stmt.tokensAll program ++ [.endOfInput]) tokens) := by
  intro program before tokens
  have wellFormed : Stmt.WellFormed program := by
    refine ⟨?_, ?_⟩
    · simp [program, Stmt.StratifiedAll, Stmt.Stratified, FunctionDecl.StratifiedAll,
        FunctionDecl.Stratified, Stmt.Plain, Stmt.endsOpen, Expr.StratifiedOpt, Expr.Stratified,
        Expr.StratifiedAll, Expr.level, BinaryOp.level, Level.tighter]
      decide
    · simp [program, Stmt.PlacedAll, Stmt.Placed, FunctionDecl.PlacedAll, FunctionDecl.Placed]
  have spells : Spells (Stmt.tokensAll program ++ [.endOfInput]) tokens := by
    refine .colon "A" 1 1 1 ?_
    repeat apply Spells.cons
    exact .nil
  have ended : Ended tokens := ⟨before, ⟨.endOfInput, 5⟩, rfl, rfl, by decide +kernel⟩
  obtain ⟨returns, accepts⟩ := parse_complete 9 tokens
  exact ⟨⟨wellFormed, spells, ended⟩, returns program wellFormed spells, accepts ended⟩

end Lox
