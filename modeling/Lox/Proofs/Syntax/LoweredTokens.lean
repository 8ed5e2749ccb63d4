import Lox.Proofs.Syntax.Completeness
import Lox.Proofs.Syntax.Lowering

/-!
Programs with loops written out, as tokens. The tokens of a program say all of it but its ids: a tree of the same
shape, whose pins agree with those of a program with loops written out, is that program under other ids.
-/

namespace Lox

/-! ### Expressions -/

/-- What stands for the same tokens further on. -/
abbrev Agree : List Pin → List Pin → Prop :=
  List.Forall₂ Pin.Agrees

variable {ps qs : List Pin}

@[simp] theorem agree_cons {p q : Pin} : Agree (p :: ps) (q :: qs) ↔ p.Agrees q ∧ Agree ps qs :=
  List.forall₂_cons

mutual

theorem Expr.Alike.onto : ∀ (e : Expr) {e' t : Expr} {ps qs : List Pin}, e.Alike Use.SameButId e' →
    t.erase = e'.erase → Agree (e'.pins ++ ps) (t.pins ++ qs) → e.Alike Use.SameButId t ∧ Agree ps qs
  | .literal _, _, t, _, _, .literal _, same, agree => by
    cases t <;> simp only [Expr.erase, reduceCtorEq, Expr.literal.injEq] at same
    subst same
    exact ⟨.literal _, (agree_cons.mp agree).2⟩
  | .group inner, _, t, _, _, .group alike, same, agree => by
    cases t <;> simp only [Expr.erase, reduceCtorEq, Expr.group.injEq] at same
    simp only [Expr.pins, List.append_assoc, List.cons_append, agree_cons] at agree
    obtain ⟨alike, agree⟩ := alike.onto inner same agree.2
    exact ⟨.group alike, (agree_cons.mp agree).2⟩
  | .unary op operand line, _, t, _, _, .unary _ _ alike, same, agree => by
    cases t <;> simp only [Expr.erase, reduceCtorEq, Expr.unary.injEq] at same
    simp only [Expr.pins, List.cons_append, agree_cons, Pin.agrees_on] at agree
    obtain ⟨rfl, same, -⟩ := same
    obtain ⟨⟨-, rfl⟩, agree⟩ := agree
    obtain ⟨alike, agree⟩ := alike.onto operand same agree
    exact ⟨.unary _ _ alike, agree⟩
  | .binary op left right line, _, t, _, _, .binary _ _ first second, same, agree => by
    cases t <;> simp only [Expr.erase, reduceCtorEq, Expr.binary.injEq] at same
    simp only [Expr.pins, List.append_assoc, List.cons_append] at agree
    obtain ⟨rfl, sameLeft, sameRight, -⟩ := same
    obtain ⟨first, behind⟩ := first.onto left sameLeft agree
    simp only [agree_cons, Pin.agrees_on] at behind
    obtain ⟨⟨-, rfl⟩, behind⟩ := behind
    obtain ⟨second, agree⟩ := second.onto right sameRight behind
    exact ⟨.binary _ _ first second, agree⟩
  | .conditional test consequent alternative, _, t, _, _, .conditional first second third, same, agree => by
    cases t <;> simp only [Expr.erase, reduceCtorEq, Expr.conditional.injEq] at same
    simp only [Expr.pins, List.append_assoc, List.cons_append] at agree
    obtain ⟨sameTest, sameConsequent, sameAlternative⟩ := same
    obtain ⟨first, agree⟩ := first.onto test sameTest agree
    obtain ⟨second, agree⟩ := second.onto consequent sameConsequent (agree_cons.mp agree).2
    obtain ⟨third, agree⟩ := third.onto alternative sameAlternative (agree_cons.mp agree).2
    exact ⟨.conditional first second third, agree⟩
  | .var use, _, t, _, _, .var alike, same, agree => by
    cases t <;> simp only [Expr.erase, reduceCtorEq, Expr.var.injEq] at same
    simp only [Expr.pins, List.cons_append, List.nil_append, agree_cons, Pin.agrees_on, Token.identifier.injEq] at agree
    exact ⟨.var ⟨agree.1.1.symm.trans alike.1, agree.1.2.symm.trans alike.2⟩, agree.2⟩
  | .assign target value, _, t, _, _, .assign alike inner, same, agree => by
    cases t <;> simp only [Expr.erase, reduceCtorEq, Expr.assign.injEq] at same
    simp only [Expr.pins, List.cons_append, agree_cons, Pin.agrees_on, Token.identifier.injEq] at agree
    obtain ⟨⟨name, line⟩, -, agree⟩ := agree
    obtain ⟨inner, agree⟩ := inner.onto value same.2 agree
    exact ⟨.assign ⟨name.symm.trans alike.1, line.symm.trans alike.2⟩ inner, agree⟩
  | .thisRef id line, _, t, _, _, .thisRef _ _, same, agree => by
    cases t <;> simp only [Expr.erase, reduceCtorEq] at same
    simp only [Expr.pins, List.cons_append, List.nil_append, agree_cons, Pin.agrees_on] at agree
    obtain ⟨⟨-, rfl⟩, agree⟩ := agree
    exact ⟨.thisRef _ ⟨rfl, rfl⟩, agree⟩
  | .superRef id method line, _, t, _, _, .superRef _ _ _, same, agree => by
    cases t <;> simp only [Expr.erase, reduceCtorEq, Expr.superRef.injEq] at same
    simp only [Expr.pins, List.cons_append, List.nil_append, agree_cons, Pin.agrees_on] at agree
    obtain ⟨-, rfl, -⟩ := same
    obtain ⟨⟨-, rfl⟩, -, -, agree⟩ := agree
    exact ⟨.superRef _ _ ⟨rfl, rfl⟩, agree⟩
  | .call callee arguments line, _, t, _, _, .call _ first others, same, agree => by
    cases t <;> simp only [Expr.erase, reduceCtorEq, Expr.call.injEq] at same
    simp only [Expr.pins, List.append_assoc, List.cons_append] at agree
    obtain ⟨first, behind⟩ := first.onto callee same.1 agree
    simp only [agree_cons, Pin.agrees_on] at behind
    obtain ⟨⟨-, rfl⟩, behind⟩ := behind
    obtain ⟨others, agree⟩ := others.onto arguments same.2.1 behind
    exact ⟨.call _ first others, (agree_cons.mp agree).2⟩
  | .field object name line, _, t, _, _, .field _ _ alike, same, agree => by
    cases t <;> simp only [Expr.erase, reduceCtorEq, Expr.field.injEq] at same
    simp only [Expr.pins, List.append_assoc, List.cons_append, List.nil_append] at agree
    obtain ⟨same, rfl, -⟩ := same
    obtain ⟨alike, behind⟩ := alike.onto object same agree
    simp only [agree_cons, Pin.agrees_on] at behind
    obtain ⟨-, ⟨-, rfl⟩, behind⟩ := behind
    exact ⟨.field _ _ alike, behind⟩
  | .setField object name value line, _, t, _, _, .setField _ _ first second, same, agree => by
    cases t <;> simp only [Expr.erase, reduceCtorEq, Expr.setField.injEq] at same
    simp only [Expr.pins, List.append_assoc, List.cons_append] at agree
    obtain ⟨sameObject, rfl, sameValue, -⟩ := same
    obtain ⟨first, behind⟩ := first.onto object sameObject agree
    simp only [agree_cons, Pin.agrees_on] at behind
    obtain ⟨-, ⟨-, rfl⟩, -, behind⟩ := behind
    obtain ⟨second, agree⟩ := second.onto value sameValue behind
    exact ⟨.setField _ _ first second, agree⟩
  | .array elements, _, t, _, _, .array all, same, agree => by
    cases t <;> simp only [Expr.erase, reduceCtorEq, Expr.array.injEq] at same
    simp only [Expr.pins, List.append_assoc, List.cons_append, agree_cons] at agree
    obtain ⟨all, agree⟩ := all.onto elements same agree.2
    exact ⟨.array all, (agree_cons.mp agree).2⟩
  | .element sequence index line, _, t, _, _, .element _ first second, same, agree => by
    cases t <;> simp only [Expr.erase, reduceCtorEq, Expr.element.injEq] at same
    simp only [Expr.pins, List.append_assoc, List.cons_append] at agree
    obtain ⟨first, behind⟩ := first.onto sequence same.1 agree
    simp only [agree_cons, Pin.agrees_on] at behind
    obtain ⟨⟨-, rfl⟩, behind⟩ := behind
    obtain ⟨second, agree⟩ := second.onto index same.2.1 behind
    exact ⟨.element _ first second, (agree_cons.mp agree).2⟩
  | .setElement sequence index value line, _, t, _, _, .setElement _ first second third, same, agree => by
    cases t <;> simp only [Expr.erase, reduceCtorEq, Expr.setElement.injEq] at same
    simp only [Expr.pins, List.append_assoc, List.cons_append] at agree
    obtain ⟨first, behind⟩ := first.onto sequence same.1 agree
    simp only [agree_cons, Pin.agrees_on] at behind
    obtain ⟨⟨-, rfl⟩, behind⟩ := behind
    obtain ⟨second, agree⟩ := second.onto index same.2.1 behind
    simp only [agree_cons] at agree
    obtain ⟨third, agree⟩ := third.onto value same.2.2.1 agree.2.2
    exact ⟨.setElement _ first second third, agree⟩

theorem Expr.AlikeAll.onto : ∀ (es : List Expr) {es' ts : List Expr} {ps qs : List Pin},
    Expr.AlikeAll Use.SameButId es es' → Expr.eraseAll ts = Expr.eraseAll es' →
    Agree (Expr.itemPins es' ++ ps) (Expr.itemPins ts ++ qs) → Expr.AlikeAll Use.SameButId es ts ∧ Agree ps qs
  | [], _, ts, _, _, .nil, same, agree => by
    cases ts <;> simp only [Expr.eraseAll, reduceCtorEq] at same
    exact ⟨.nil, agree⟩
  | e :: es, _, ts, _, _, .cons first others, same, agree => by
    cases ts <;> simp only [Expr.eraseAll, reduceCtorEq, List.cons.injEq] at same
    simp only [Expr.itemPins, List.append_assoc] at agree
    obtain ⟨first, agree⟩ := first.onto e same.1 agree
    obtain ⟨others, agree⟩ := others.ontoMore es same.2 agree
    exact ⟨.cons first others, agree⟩

theorem Expr.AlikeAll.ontoMore : ∀ (es : List Expr) {es' ts : List Expr} {ps qs : List Pin},
    Expr.AlikeAll Use.SameButId es es' → Expr.eraseAll ts = Expr.eraseAll es' →
    Agree (Expr.morePins es' ++ ps) (Expr.morePins ts ++ qs) → Expr.AlikeAll Use.SameButId es ts ∧ Agree ps qs
  | [], _, ts, _, _, .nil, same, agree => by
    cases ts <;> simp only [Expr.eraseAll, reduceCtorEq] at same
    exact ⟨.nil, agree⟩
  | e :: es, _, ts, _, _, .cons first others, same, agree => by
    cases ts <;> simp only [Expr.eraseAll, reduceCtorEq, List.cons.injEq] at same
    simp only [Expr.morePins, List.cons_append, List.append_assoc, agree_cons] at agree
    obtain ⟨first, agree⟩ := first.onto e same.1 agree.2
    obtain ⟨others, agree⟩ := others.ontoMore es same.2 agree
    exact ⟨.cons first others, agree⟩

end

section Options

variable {e? e'? t? : Option Expr} {t : Expr}

theorem Expr.AlikeOpt.onto (alike : Expr.AlikeOpt Use.SameButId e? e'?) (same : t?.map Expr.erase = e'?.map Expr.erase)
    (agree : Agree (Expr.optPins e'? ++ ps) (Expr.optPins t? ++ qs)) :
    Expr.AlikeOpt Use.SameButId e? t? ∧ Agree ps qs := by
  cases alike with
  | none =>
    cases t? with
    | none => exact ⟨.none, agree⟩
    | some t => simp at same
  | some alike =>
    cases t? with
    | none => simp at same
    | some t =>
      obtain ⟨alike, agree⟩ := alike.onto _ (Option.some.inj same) agree
      exact ⟨.some alike, agree⟩

/-- The test of a loop that is written out, which is `true` if there was none. -/
theorem test_onto (alike : Expr.AlikeOpt Use.SameButId e? e'?)
    (same : t.erase = (e'?.getD (.literal (.bool true))).erase)
    (agree : Agree ((e'?.getD (.literal (.bool true))).pins ++ ps) (t.pins ++ qs)) :
    ∃ t?, t = Option.getD t? (.literal (.bool true)) ∧ Expr.AlikeOpt Use.SameButId e? t? ∧ Agree ps qs := by
  cases alike with
  | none =>
    cases t <;> simp only [Option.getD, Expr.erase, reduceCtorEq, Expr.literal.injEq] at same
    subst same
    exact ⟨none, rfl, .none, (agree_cons.mp agree).2⟩
  | some alike =>
    obtain ⟨alike, agree⟩ := alike.onto _ same agree
    exact ⟨some t, rfl, .some alike, agree⟩

theorem superclass_onto {use? use'? other? : Option Use} (same : Option.Rel Use.SameButId use? use'?)
    (erased : other?.map Use.erase = use'?.map Use.erase)
    (agree : Agree (superclassPins use'? ++ ps) (superclassPins other? ++ qs)) :
    Option.Rel Use.SameButId use? other? ∧ Agree ps qs := by
  cases same with
  | none =>
    cases other? with
    | none => exact ⟨.none, agree⟩
    | some other => simp at erased
  | some same =>
    cases other? with
    | none => simp at erased
    | some other =>
      simp only [superclassPins, List.cons_append, List.nil_append, agree_cons, Pin.agrees_on,
        Token.identifier.injEq] at agree
      obtain ⟨-, ⟨name, line⟩, agree⟩ := agree
      exact ⟨.some ⟨name.symm.trans same.1, line.symm.trans same.2⟩, agree⟩

end Options

/-! ### Statements -/

theorem ifElse_erase (test : Expr) (consequent : Stmt) (alternative? : Option Stmt) :
    (Stmt.ifElse test consequent alternative?).erase =
      .ifElse test.erase consequent.erase (alternative?.map Stmt.erase) := by
  cases alternative? <;> rfl

theorem erase_eq_block {t : Stmt} {body : List Stmt} (same : t.erase = .block body) :
    ∃ body', t = .block body' ∧ Stmt.eraseAll body' = body := by
  cases t <;> simp only [Stmt.erase, ifElse_erase, forLoop_erase, reduceCtorEq, Stmt.block.injEq] at same
  exact ⟨_, rfl, same⟩

theorem erase_eq_while {t body : Stmt} {test : Expr} (same : t.erase = .whileLoop test body) :
    ∃ test' body', t = .whileLoop test' body' ∧ test'.erase = test ∧ body'.erase = body := by
  cases t <;> simp only [Stmt.erase, ifElse_erase, forLoop_erase, reduceCtorEq, Stmt.whileLoop.injEq] at same
  exact ⟨_, _, rfl, same⟩

theorem erase_eq_expr {t : Stmt} {e : Expr} (same : t.erase = .expr e) : ∃ e', t = .expr e' ∧ e'.erase = e := by
  cases t <;> simp only [Stmt.erase, ifElse_erase, forLoop_erase, reduceCtorEq, Stmt.expr.injEq] at same
  exact ⟨_, rfl, same⟩

theorem eraseAll_eq_cons {ts ss : List Stmt} {s : Stmt} (same : Stmt.eraseAll ts = s :: ss) :
    ∃ t ts', ts = t :: ts' ∧ t.erase = s ∧ Stmt.eraseAll ts' = ss := by
  cases ts with
  | nil => simp [Stmt.eraseAll] at same
  | cons t ts => exact ⟨t, ts, rfl, List.cons.inj same⟩

theorem eraseAll_eq_singleton {ts : List Stmt} {s : Stmt} (same : Stmt.eraseAll ts = [s]) :
    ∃ t, ts = [t] ∧ t.erase = s := by
  obtain ⟨t, rest, rfl, first, none⟩ := eraseAll_eq_cons same
  cases rest with
  | nil => exact ⟨t, rfl, first⟩
  | cons _ _ => simp [Stmt.eraseAll] at none

theorem pinsAll_singleton (s : Stmt) : Stmt.pinsAll [s] = s.pins :=
  List.append_nil s.pins

theorem pinsAll_pair (s t : Stmt) : Stmt.pinsAll [s, t] = s.pins ++ t.pins := by
  rw [Stmt.pinsAll, pinsAll_singleton]

theorem agree_block {ss ts : List Stmt} (agree : Agree ((Stmt.block ss).pins ++ ps) ((Stmt.block ts).pins ++ qs)) :
    Agree (Stmt.pinsAll ss ++ .mark .rightCurly :: ps) (Stmt.pinsAll ts ++ .mark .rightCurly :: qs) := by
  simp only [Stmt.pins, List.cons_append, List.append_assoc, List.nil_append, agree_cons] at agree
  exact agree.2

theorem agree_moreParams {names : List String} (agree : Agree (moreParamPins names ++ ps) (moreParamPins names ++ qs)) :
    Agree ps qs := by
  induction names with
  | nil => exact agree
  | cons name names ih => exact ih (agree_cons.mp (agree_cons.mp agree).2).2

theorem agree_params {names : List String} (agree : Agree (paramPins names ++ ps) (paramPins names ++ qs)) :
    Agree ps qs := by
  cases names with
  | nil => exact agree
  | cons name names => exact agree_moreParams (agree_cons.mp agree).2

/-- What is written as a statement is, is what another one lowers to. -/
def Stmt.Onto (s s' : Stmt) : Prop :=
  ∀ {t : Stmt} {ps qs : List Pin}, t.erase = s'.erase → Agree (s'.pins ++ ps) (t.pins ++ qs) →
    s.Lowers t ∧ Agree ps qs

section Loops

variable {test? test'? step? step'? : Option Expr} {body body' t : Stmt}

theorem round_onto (step : Expr.AlikeOpt Use.SameButId step? step'?) (onto : body.Onto body')
    (same : t.erase = (Stmt.roundForm step'? body').erase)
    (agree : Agree ((Stmt.roundForm step'? body').pins ++ ps) (t.pins ++ qs)) :
    ∃ step''? body'', t = .roundForm step''? body'' ∧ Expr.AlikeOpt Use.SameButId step? step''? ∧
      body.Lowers body'' ∧ Agree ps qs := by
  obtain ⟨ts, rfl, inside⟩ := erase_eq_block same
  have agree := agree_block agree
  cases step with
  | none =>
    obtain ⟨b, rfl, sameBody⟩ := eraseAll_eq_singleton inside
    simp only [Option.toList_none, List.map_nil, Stmt.pinsAll, List.append_nil] at agree
    obtain ⟨lowers, agree⟩ := onto sameBody agree
    exact ⟨none, b, rfl, .none, lowers, (agree_cons.mp agree).2⟩
  | some alike =>
    obtain ⟨b, rest, rfl, sameBody, others⟩ := eraseAll_eq_cons inside
    obtain ⟨last, rfl, sameLast⟩ := eraseAll_eq_singleton others
    obtain ⟨e, rfl, sameStep⟩ := erase_eq_expr sameLast
    simp only [Option.toList_some, List.map_cons, List.map_nil, Stmt.pinsAll, Stmt.pins, List.append_nil,
      List.append_assoc, List.cons_append, List.nil_append] at agree
    obtain ⟨lowers, agree⟩ := onto sameBody agree
    obtain ⟨alike, agree⟩ := alike.onto _ sameStep agree
    simp only [agree_cons] at agree
    exact ⟨some e, b, rfl, .some alike, lowers, agree.2.2⟩

/-- The `while` of a loop that is written out. -/
theorem while_onto (test : Expr.AlikeOpt Use.SameButId test? test'?) (step : Expr.AlikeOpt Use.SameButId step? step'?)
    (onto : body.Onto body')
    (same : t.erase = (Stmt.whileLoop (test'?.getD (.literal (.bool true))) (.roundForm step'? body')).erase)
    (agree : Agree ((Stmt.whileLoop (test'?.getD (.literal (.bool true))) (.roundForm step'? body')).pins ++ ps)
      (t.pins ++ qs)) :
    ∃ test''? step''? body'', t = .whileLoop (Option.getD test''? (.literal (.bool true))) (.roundForm step''? body'') ∧
      Expr.AlikeOpt Use.SameButId test? test''? ∧ Expr.AlikeOpt Use.SameButId step? step''? ∧
      body.Lowers body'' ∧ Agree ps qs := by
  obtain ⟨asked, round, rfl, sameTest, sameRound⟩ := erase_eq_while same
  simp only [Stmt.pins, List.cons_append, List.append_assoc, agree_cons] at agree
  obtain ⟨test''?, rfl, test, agree⟩ := test_onto test sameTest agree.2.2
  obtain ⟨step''?, body'', rfl, step, lowers, agree⟩ := round_onto step onto sameRound (agree_cons.mp agree).2
  exact ⟨test''?, step''?, body'', rfl, test, step, lowers, agree⟩

end Loops

mutual

theorem Stmt.Lowers.onto : ∀ (s : Stmt) {s' t : Stmt} {ps qs : List Pin}, s.Lowers s' → t.erase = s'.erase →
    Agree (s'.pins ++ ps) (t.pins ++ qs) → s.Lowers t ∧ Agree ps qs
  | .expr value, _, t, _, _, .expr alike, same, agree => by
    obtain ⟨e, rfl, inside⟩ := erase_eq_expr same
    simp only [Stmt.pins, List.append_assoc, List.cons_append, List.nil_append] at agree
    obtain ⟨alike, agree⟩ := alike.onto value inside agree
    exact ⟨.expr alike, (agree_cons.mp agree).2⟩
  | .print items line, _, t, _, _, .print _ all, same, agree => by
    cases t <;> simp only [Stmt.erase, ifElse_erase, forLoop_erase, reduceCtorEq, Stmt.print.injEq] at same
    simp only [Stmt.pins, List.append_assoc, List.cons_append, agree_cons, Pin.agrees_on] at agree
    obtain ⟨⟨-, rfl⟩, agree⟩ := agree
    obtain ⟨all, agree⟩ := all.onto items same.1 agree
    exact ⟨.print _ all, (agree_cons.mp agree).2⟩
  | .varDecl name initial? line, _, t, _, _, .varDecl _ _ alike, same, agree => by
    cases t <;> simp only [Stmt.erase, ifElse_erase, forLoop_erase, reduceCtorEq, Stmt.varDecl.injEq] at same
    obtain ⟨rfl, same, -⟩ := same
    cases alike with
    | none =>
      obtain rfl := Option.map_eq_none_iff.mp same
      simp only [Stmt.pins, List.cons_append, List.nil_append, agree_cons, Pin.agrees_on] at agree
      obtain ⟨-, ⟨-, rfl⟩, -, agree⟩ := agree
      exact ⟨.varDecl _ _ .none, agree⟩
    | some alike =>
      obtain ⟨initial, rfl, sameInitial⟩ := Option.map_eq_some_iff.mp same
      simp only [Stmt.pins, List.cons_append, List.append_assoc, agree_cons, Pin.agrees_on] at agree
      obtain ⟨-, ⟨-, rfl⟩, -, agree⟩ := agree
      obtain ⟨alike, agree⟩ := alike.onto _ sameInitial agree
      exact ⟨.varDecl _ _ (.some alike), (agree_cons.mp agree).2⟩
  | .block body, _, t, _, _, .block lowers, same, agree => by
    obtain ⟨ts, rfl, inside⟩ := erase_eq_block same
    obtain ⟨lowers, agree⟩ := lowers.onto body inside (agree_block agree)
    exact ⟨.block lowers, (agree_cons.mp agree).2⟩
  | .ifElse test consequent none, _, t, _, _, .ifThen first second, same, agree => by
    cases t <;> simp only [Stmt.erase, ifElse_erase, forLoop_erase, reduceCtorEq, Stmt.ifElse.injEq,
      Option.map_eq_none_iff] at same
    obtain ⟨sameTest, sameConsequent, rfl⟩ := same
    simp only [Stmt.pins, List.append_assoc, List.cons_append, agree_cons] at agree
    obtain ⟨first, agree⟩ := first.onto test sameTest agree.2.2
    obtain ⟨second, agree⟩ := second.onto consequent sameConsequent (agree_cons.mp agree).2
    exact ⟨.ifThen first second, agree⟩
  | .ifElse test consequent (some alternative), _, t, _, _, .ifElse first second third, same, agree => by
    cases t <;> simp only [Stmt.erase, ifElse_erase, forLoop_erase, reduceCtorEq, Stmt.ifElse.injEq,
      Option.map_eq_some_iff] at same
    obtain ⟨sameTest, sameConsequent, alternative', rfl, sameAlternative⟩ := same
    simp only [Stmt.pins, List.append_assoc, List.cons_append, agree_cons] at agree
    obtain ⟨first, agree⟩ := first.onto test sameTest agree.2.2
    obtain ⟨second, agree⟩ := second.onto consequent sameConsequent (agree_cons.mp agree).2
    obtain ⟨third, agree⟩ := third.onto alternative sameAlternative (agree_cons.mp agree).2
    exact ⟨.ifElse first second third, agree⟩
  | .whileLoop test body, _, t, _, _, .whileLoop first second, same, agree => by
    obtain ⟨test', body', rfl, sameTest, sameBody⟩ := erase_eq_while same
    simp only [Stmt.pins, List.append_assoc, List.cons_append, agree_cons] at agree
    obtain ⟨first, agree⟩ := first.onto test sameTest agree.2.2
    obtain ⟨second, agree⟩ := second.onto body sameBody (agree_cons.mp agree).2
    exact ⟨.whileLoop first second, agree⟩
  | .forLoop none test? step? body, _, t, _, _, .forLoop test step lowers, same, agree => by
    cases t <;> simp only [Stmt.erase, ifElse_erase, forLoop_erase, reduceCtorEq, Stmt.forLoop.injEq,
      Option.map_eq_none_iff] at same
    obtain ⟨rfl, sameTest, sameStep, sameBody⟩ := same
    simp only [Stmt.pins, List.append_assoc, List.cons_append, agree_cons] at agree
    obtain ⟨test, agree⟩ := test.onto sameTest agree.2.2.2
    obtain ⟨step, agree⟩ := step.onto sameStep (agree_cons.mp agree).2
    obtain ⟨lowers, agree⟩ := lowers.onto body sameBody (agree_cons.mp agree).2
    exact ⟨.forLoop test step lowers, agree⟩
  | .forLoop (some initial) test? step? body, _, t, _, _, .forFrom first test step lowers, same, agree => by
    cases t <;> simp only [Stmt.erase, ifElse_erase, forLoop_erase, reduceCtorEq, Stmt.forLoop.injEq,
      Option.map_eq_some_iff] at same
    obtain ⟨⟨initial', rfl, sameInitial⟩, sameTest, sameStep, sameBody⟩ := same
    simp only [Stmt.pins, List.append_assoc, List.cons_append, agree_cons] at agree
    obtain ⟨first, agree⟩ := first.onto initial sameInitial agree.2.2
    obtain ⟨test, agree⟩ := test.onto sameTest agree
    obtain ⟨step, agree⟩ := step.onto sameStep (agree_cons.mp agree).2
    obtain ⟨lowers, agree⟩ := lowers.onto body sameBody (agree_cons.mp agree).2
    exact ⟨.forFrom first test step lowers, agree⟩
  | .forLoop none test? step? body, _, t, _, _, .lowered test step lowers plain, same, agree => by
    obtain ⟨ts, rfl, inside⟩ := erase_eq_block same
    obtain ⟨loop, rfl, sameLoop⟩ := eraseAll_eq_singleton inside
    have agree := agree_block agree
    rw [Option.toList_none, List.nil_append, pinsAll_singleton, pinsAll_singleton] at agree
    obtain ⟨test''?, step''?, body'', rfl, test, step, lowers, agree⟩ :=
      while_onto test step (fun same agree => lowers.onto body same agree) sameLoop agree
    exact ⟨.lowered test step lowers plain, (agree_cons.mp agree).2⟩
  | .forLoop (some initial) test? step? body, _, t, _, _, .loweredFrom first test step lowers plain, same, agree => by
    obtain ⟨ts, rfl, inside⟩ := erase_eq_block same
    obtain ⟨initial', rest, rfl, sameInitial, sameRest⟩ := eraseAll_eq_cons inside
    obtain ⟨loop, rfl, sameLoop⟩ := eraseAll_eq_singleton sameRest
    have agree := agree_block agree
    rw [Option.toList_some, List.singleton_append, pinsAll_pair, pinsAll_pair, List.append_assoc,
      List.append_assoc] at agree
    obtain ⟨first, agree⟩ := first.onto initial sameInitial agree
    obtain ⟨test''?, step''?, body'', rfl, test, step, lowers, agree⟩ :=
      while_onto test step (fun same agree => lowers.onto body same agree) sameLoop agree
    exact ⟨.loweredFrom first test step lowers plain, (agree_cons.mp agree).2⟩
  | .breakLoop, _, t, _, _, .breakLoop, same, agree => by
    cases t <;> simp only [Stmt.erase, ifElse_erase, forLoop_erase, reduceCtorEq] at same
    exact ⟨.breakLoop, (agree_cons.mp (agree_cons.mp agree).2).2⟩
  | .continueLoop, _, t, _, _, .continueLoop, same, agree => by
    cases t <;> simp only [Stmt.erase, ifElse_erase, forLoop_erase, reduceCtorEq] at same
    exact ⟨.continueLoop, (agree_cons.mp (agree_cons.mp agree).2).2⟩
  | .funDecl decl, _, t, _, _, .funDecl lowers, same, agree => by
    cases t <;> simp only [Stmt.erase, ifElse_erase, forLoop_erase, reduceCtorEq, Stmt.funDecl.injEq] at same
    obtain ⟨lowers, agree⟩ := lowers.onto decl same (agree_cons.mp agree).2
    exact ⟨.funDecl lowers, agree⟩
  | .returnValue value? line, _, t, _, _, .returnValue _ alike, same, agree => by
    cases t <;> simp only [Stmt.erase, ifElse_erase, forLoop_erase, reduceCtorEq, Stmt.returnValue.injEq] at same
    simp only [Stmt.pins, List.append_assoc, List.cons_append, agree_cons, Pin.agrees_on] at agree
    obtain ⟨⟨-, rfl⟩, agree⟩ := agree
    obtain ⟨alike, agree⟩ := alike.onto same.1 agree
    exact ⟨.returnValue _ alike, (agree_cons.mp agree).2⟩
  | .classDecl name superclass? methods line, _, t, _, _, .classDecl _ _ superclass lowers, same, agree => by
    cases t <;> simp only [Stmt.erase, ifElse_erase, forLoop_erase, reduceCtorEq, Stmt.classDecl.injEq] at same
    simp only [Stmt.pins, List.append_assoc, List.cons_append, agree_cons, Pin.agrees_on] at agree
    obtain ⟨rfl, sameSuperclass, sameMethods, -⟩ := same
    obtain ⟨-, ⟨-, rfl⟩, agree⟩ := agree
    obtain ⟨superclass, agree⟩ := superclass_onto superclass sameSuperclass agree
    obtain ⟨lowers, agree⟩ := lowers.onto methods sameMethods (agree_cons.mp agree).2
    exact ⟨.classDecl _ _ superclass lowers, (agree_cons.mp agree).2⟩

theorem FunctionDecl.Lowers.onto : ∀ (f : FunctionDecl) {f' t : FunctionDecl} {ps qs : List Pin}, f.Lowers f' →
    t.erase = f'.erase → Agree (f'.pins ++ ps) (t.pins ++ qs) → f.Lowers t ∧ Agree ps qs
  | { name := _, params := _, body, line := _ }, _, { name := _, params := _, body := _, line := _ }, _, _,
      .decl _ _ _ lowers, same, agree => by
    simp only [FunctionDecl.erase, FunctionDecl.mk.injEq] at same
    obtain ⟨rfl, rfl, same, -⟩ := same
    simp only [FunctionDecl.pins, List.append_assoc, List.cons_append, agree_cons, Pin.agrees_on] at agree
    obtain ⟨⟨-, rfl⟩, -, agree⟩ := agree
    have agree := agree_params agree
    simp only [agree_cons] at agree
    obtain ⟨lowers, agree⟩ := lowers.onto body same agree.2.2
    exact ⟨.decl _ _ _ lowers, (agree_cons.mp agree).2⟩

theorem Stmt.LowersAll.onto : ∀ (ss : List Stmt) {ss' ts : List Stmt} {ps qs : List Pin}, Stmt.LowersAll ss ss' →
    Stmt.eraseAll ts = Stmt.eraseAll ss' → Agree (Stmt.pinsAll ss' ++ ps) (Stmt.pinsAll ts ++ qs) →
    Stmt.LowersAll ss ts ∧ Agree ps qs
  | [], _, ts, _, _, .nil, same, agree => by
    cases ts <;> simp only [Stmt.eraseAll, reduceCtorEq] at same
    exact ⟨.nil, agree⟩
  | s :: ss, _, ts, _, _, .cons first others, same, agree => by
    cases ts <;> simp only [Stmt.eraseAll, reduceCtorEq, List.cons.injEq] at same
    simp only [Stmt.pinsAll, List.append_assoc] at agree
    obtain ⟨first, agree⟩ := first.onto s same.1 agree
    obtain ⟨others, agree⟩ := others.onto ss same.2 agree
    exact ⟨.cons first others, agree⟩

theorem FunctionDecl.LowersAll.onto : ∀ (fs : List FunctionDecl) {fs' ts : List FunctionDecl} {ps qs : List Pin},
    FunctionDecl.LowersAll fs fs' → FunctionDecl.eraseAll ts = FunctionDecl.eraseAll fs' →
    Agree (FunctionDecl.pinsAll fs' ++ ps) (FunctionDecl.pinsAll ts ++ qs) → FunctionDecl.LowersAll fs ts ∧ Agree ps qs
  | [], _, ts, _, _, .nil, same, agree => by
    cases ts <;> simp only [FunctionDecl.eraseAll, reduceCtorEq] at same
    exact ⟨.nil, agree⟩
  | f :: fs, _, ts, _, _, .cons first others, same, agree => by
    cases ts <;> simp only [FunctionDecl.eraseAll, reduceCtorEq, List.cons.injEq] at same
    simp only [FunctionDecl.pinsAll, List.append_assoc] at agree
    obtain ⟨first, agree⟩ := first.onto f same.1 agree
    obtain ⟨others, agree⟩ := others.onto fs same.2 agree
    exact ⟨.cons first others, agree⟩

end

/-! ### Whole programs -/

/-- The tokens of a text are those of a program, each on the line that the program keeps for it, with the end of the
input behind them and nowhere else. -/
def Stmt.Written (program : List Stmt) (tokens : List Located) : Prop :=
  ∃ before stop, tokens = before ++ [stop] ∧ stop.token = .endOfInput ∧ (∀ l ∈ before, l.token ≠ .endOfInput) ∧
    Pinned (Stmt.pinsAll program) before

theorem Stmt.Written.spells {program : List Stmt} {tokens : List Located} (written : Stmt.Written program tokens) :
    Spells (Stmt.tokensAll program ++ [.endOfInput]) tokens := by
  obtain ⟨before, stop, rfl, stopped, -, pinned⟩ := written
  have spells := pinned.spells
  rw [Stmt.tokens_pinsAll] at spells
  exact spells.append (stopped ▸ .cons stop.token stop.line .nil)

/-- A program with loops written out is read back from its tokens, under ids of its own. -/
theorem parse_lowered {program program' : List Stmt} {tokens : List Located} (nextId : Nat)
    (lowers : Stmt.LowersAll program program') (strata : Stmt.StratifiedAll program)
    (placed : Stmt.PlacedAll false false program) (written : Stmt.Written program' tokens) :
    (parse nextId tokens).diagnostics = [] ∧ Stmt.LowersAll program (parse nextId tokens).program := by
  have wellFormed : Stmt.WellFormed program' := ⟨lowers.stratified program strata, lowers.placed program placed⟩
  obtain ⟨clean, same⟩ := parse_returns nextId wellFormed written.spells
  refine ⟨clean, ?_⟩
  obtain ⟨before, stop, rfl, stopped, inside, pinned⟩ := written
  obtain ⟨pinned', -⟩ := parse_pinned inside stopped clean
  have spelled : (Stmt.pinsAll program').map Pin.token =
      (Stmt.pinsAll (parse nextId (before ++ [stop])).program).map Pin.token := by
    rw [Stmt.tokens_pinsAll, Stmt.tokens_pinsAll, ← Stmt.tokensAll_erase, ← same, Stmt.tokensAll_erase]
  have agree := pinned.agree pinned' spelled
  rw [← List.append_nil (Stmt.pinsAll program'), ← List.append_nil (Stmt.pinsAll (parse _ _).program)] at agree
  exact (lowers.onto program same agree).1

end Lox
