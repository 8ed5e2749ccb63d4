import Lox.Proofs.Syntax.Forms
import Lox.Proofs.Syntax.Grammar
import Lox.Proofs.Lexeme.Lexemes
import Lox.Proofs.Number.Numerals

/-!
Programs read back from their Polish forms. Each head stands in front of operands of its own, so a form is that
of one tree, ids and lines aside. Two things are written alike: an absent clause of a `for` and a literal `nil`,
and a number too great for a double and a variable named `inf`. `shown` is the tree that the forms show.
-/

namespace Lox

/-! ### What is shown of a tree -/

/-- An infinite number is shown as a variable. -/
def Literal.shown : Literal → Expr
  | .number x => if Number.infinite x then .var ⟨0, "inf", 0⟩ else .literal (.number x)
  | value => .literal value

mutual

def Expr.shown : Expr → Expr
  | .literal value => value.shown
  | .group inner => .group inner.shown
  | .unary op operand line => .unary op operand.shown line
  | .binary op left right line => .binary op left.shown right.shown line
  | .conditional test consequent alternative => .conditional test.shown consequent.shown alternative.shown
  | .var use => .var use
  | .assign target value => .assign target value.shown
  | .thisRef id line => .thisRef id line
  | .superRef id method line => .superRef id method line
  | .call callee arguments line => .call callee.shown (Expr.shownAll arguments) line
  | .field object name line => .field object.shown name line
  | .setField object name value line => .setField object.shown name value.shown line
  | .array elements => .array (Expr.shownAll elements)
  | .element sequence index line => .element sequence.shown index.shown line
  | .setElement sequence index value line => .setElement sequence.shown index.shown value.shown line

def Expr.shownAll : List Expr → List Expr
  | [] => []
  | e :: es => e.shown :: Expr.shownAll es

end

/-- An absent clause is shown as a literal. -/
def Expr.shownOr : Option Expr → Expr
  | none => .literal .nil
  | some e => e.shown

mutual

def Stmt.shown : Stmt → Stmt
  | .expr value => .expr value.shown
  | .print items line => .print (Expr.shownAll items) line
  | .varDecl name initial? line => .varDecl name (initial?.map Expr.shown) line
  | .block body => .block (Stmt.shownAll body)
  | .ifElse test consequent none => .ifElse test.shown consequent.shown none
  | .ifElse test consequent (some alternative) =>
    .ifElse test.shown consequent.shown (some alternative.shown)
  | .whileLoop test body => .whileLoop test.shown body.shown
  | .forLoop none test? step? body =>
    .forLoop none (some (Expr.shownOr test?)) (some (Expr.shownOr step?)) body.shown
  | .forLoop (some initial) test? step? body =>
    .forLoop (some initial.shown) (some (Expr.shownOr test?)) (some (Expr.shownOr step?)) body.shown
  | .breakLoop => .breakLoop
  | .continueLoop => .continueLoop
  | .funDecl decl => .funDecl decl.shown
  | .returnValue value? line => .returnValue (value?.map Expr.shown) line
  | .classDecl name superclass? methods line =>
    .classDecl name superclass? (FunctionDecl.shownAll methods) line

def FunctionDecl.shown : FunctionDecl → FunctionDecl
  | { name, params, body, line } => ⟨name, params, Stmt.shownAll body, line⟩

def Stmt.shownAll : List Stmt → List Stmt
  | [] => []
  | s :: ss => s.shown :: Stmt.shownAll ss

def FunctionDecl.shownAll : List FunctionDecl → List FunctionDecl
  | [] => []
  | f :: fs => f.shown :: FunctionDecl.shownAll fs

end

/-! ### The forms of trees -/

def Form.headed (head : String) (operands : List Form) : Form :=
  .list (.word head :: operands)

def Literal.form : Literal → Form
  | .string contents => .quoted contents
  | value => .word value.token.text

mutual

def Expr.form : Expr → Form
  | .literal value => value.form
  | .group inner => .headed "group" [inner.form]
  | .unary op operand _ => .headed op.token.text [operand.form]
  | .binary op left right _ => .headed op.token.text [left.form, right.form]
  | .conditional test consequent alternative => .headed "?:" [test.form, consequent.form, alternative.form]
  | .var use => .word use.name
  | .assign target value => .headed "=" [.word target.name, value.form]
  | .thisRef _ _ => .word "this"
  | .superRef _ method _ => .headed "super" [.word method]
  | .call callee arguments _ => .headed "call" (callee.form :: Expr.forms arguments)
  | .field object name _ => .headed "." [object.form, .word name]
  | .setField object name value _ => .headed ".=" [object.form, .word name, value.form]
  | .array elements => .headed "array" (Expr.forms elements)
  | .element sequence index _ => .headed "[]" [sequence.form, index.form]
  | .setElement sequence index value _ => .headed "[]=" [sequence.form, index.form, value.form]

def Expr.forms : List Expr → List Form
  | [] => []
  | e :: es => e.form :: Expr.forms es

end

def Expr.formOr : Option Expr → Form
  | none => .word "nil"
  | some e => e.form

mutual

def Stmt.form : Stmt → Form
  | .expr value => .headed ";" [value.form]
  | .print items _ => .headed "print" (Expr.forms items)
  | .varDecl name initial? _ => .headed "var" (.word name :: Expr.forms initial?.toList)
  | .block body => .headed "block" (Stmt.forms body)
  | .ifElse test consequent none => .headed "if" [test.form, consequent.form]
  | .ifElse test consequent (some alternative) => .headed "if" [test.form, consequent.form, alternative.form]
  | .whileLoop test body => .headed "while" [test.form, body.form]
  | .forLoop none test? step? body =>
    .headed "for" [.word "nil", Expr.formOr test?, Expr.formOr step?, body.form]
  | .forLoop (some initial) test? step? body =>
    .headed "for" [initial.form, Expr.formOr test?, Expr.formOr step?, body.form]
  | .breakLoop => .headed "break" []
  | .continueLoop => .headed "continue" []
  | .funDecl decl => decl.form
  | .returnValue value? _ => .headed "return" (Expr.forms value?.toList)
  | .classDecl name none methods _ => .headed "class" (.word name :: FunctionDecl.forms methods)
  | .classDecl name (some superclass) methods _ =>
    .headed "class" (.word name :: .word "<" :: .word superclass.name :: FunctionDecl.forms methods)

def FunctionDecl.form : FunctionDecl → Form
  | { name, params, body, line := _ } =>
    .headed "fun" (.word name :: .list (params.map .word) :: Stmt.forms body)

def Stmt.forms : List Stmt → List Form
  | [] => []
  | s :: ss => s.form :: Stmt.forms ss

def FunctionDecl.forms : List FunctionDecl → List Form
  | [] => []
  | f :: fs => f.form :: FunctionDecl.forms fs

end

theorem Form.text_word (text : String) : (Form.word text).text = text := by
  rw [Form.text]

theorem Form.text_headed (head : String) (operands : List Form) :
    (Form.headed head operands).text = parenthesized head (Form.textAll operands) := by
  rw [Form.headed, Form.text, Form.textAll, Form.text_word, parenthesized]

theorem Form.text_words (names : List String) :
    (Form.list (names.map .word)).text = "(" ++ " ".intercalate names ++ ")" := by
  have same : (names.map Form.word).map Form.text = names := by
    rw [List.map_map]
    exact List.map_id'' Form.text_word names
  rw [Form.text, Form.textAll_eq, same]

theorem Literal.text_form (value : Literal) : value.form.text = value.token.text := by
  cases value with
  | string contents =>
    rw [Literal.form, Form.text]
    rfl
  | _ => exact Form.text_word _

mutual

theorem Expr.text_form : ∀ e : Expr, e.form.text = e.polish
  | .literal value => by rw [Expr.form, Expr.polish, Literal.text_form]
  | .group inner => by simp [Expr.form, Expr.polish, Form.text_headed, Form.textAll, inner.text_form]
  | .unary op operand _ => by simp [Expr.form, Expr.polish, Form.text_headed, Form.textAll, operand.text_form]
  | .binary op left right _ => by
    simp [Expr.form, Expr.polish, Form.text_headed, Form.textAll, left.text_form, right.text_form]
  | .conditional test consequent alternative => by
    simp [Expr.form, Expr.polish, Form.text_headed, Form.textAll, test.text_form, consequent.text_form,
      alternative.text_form]
  | .var use => by rw [Expr.form, Expr.polish, Form.text_word]
  | .assign target value => by
    simp [Expr.form, Expr.polish, Form.text_headed, Form.textAll, Form.text_word, value.text_form]
  | .thisRef _ _ => by rw [Expr.form, Expr.polish, Form.text_word]
  | .superRef _ method _ => by simp [Expr.form, Expr.polish, Form.text_headed, Form.textAll, Form.text_word]
  | .call callee arguments _ => by
    simp [Expr.form, Expr.polish, Form.text_headed, Form.textAll, callee.text_form, Expr.textAll_forms arguments]
  | .field object name _ => by
    simp [Expr.form, Expr.polish, Form.text_headed, Form.textAll, Form.text_word, object.text_form]
  | .setField object name value _ => by
    simp [Expr.form, Expr.polish, Form.text_headed, Form.textAll, Form.text_word, object.text_form, value.text_form]
  | .array elements => by simp [Expr.form, Expr.polish, Form.text_headed, Expr.textAll_forms elements]
  | .element sequence index _ => by
    simp [Expr.form, Expr.polish, Form.text_headed, Form.textAll, sequence.text_form, index.text_form]
  | .setElement sequence index value _ => by
    simp [Expr.form, Expr.polish, Form.text_headed, Form.textAll, sequence.text_form, index.text_form,
      value.text_form]

theorem Expr.textAll_forms : ∀ es : List Expr, Form.textAll (Expr.forms es) = Expr.polishAll es
  | [] => rfl
  | e :: es => by rw [Expr.forms, Form.textAll, Expr.polishAll, e.text_form, Expr.textAll_forms es]

end

theorem Expr.text_formOr (e? : Option Expr) : (Expr.formOr e?).text = Expr.polishOr "nil" e? := by
  cases e? with
  | none => rw [Expr.formOr, Expr.polishOr, Form.text_word]
  | some e => exact e.text_form

mutual

theorem Stmt.text_form : ∀ s : Stmt, s.form.text = s.polish
  | .expr value => by simp [Stmt.form, Stmt.polish, Form.text_headed, Form.textAll, value.text_form]
  | .print items _ => by simp [Stmt.form, Stmt.polish, Form.text_headed, Expr.textAll_forms items]
  | .varDecl name initial? _ => by
    simp [Stmt.form, Stmt.polish, Form.text_headed, Form.textAll, Form.text_word, Expr.textAll_forms]
  | .block body => by simp [Stmt.form, Stmt.polish, Form.text_headed, Stmt.textAll_forms body]
  | .ifElse test consequent none => by
    simp [Stmt.form, Stmt.polish, Form.text_headed, Form.textAll, test.text_form, consequent.text_form]
  | .ifElse test consequent (some alternative) => by
    simp [Stmt.form, Stmt.polish, Form.text_headed, Form.textAll, test.text_form, consequent.text_form,
      alternative.text_form]
  | .whileLoop test body => by
    simp [Stmt.form, Stmt.polish, Form.text_headed, Form.textAll, test.text_form, body.text_form]
  | .forLoop none test? step? body => by
    simp [Stmt.form, Stmt.polish, Form.text_headed, Form.textAll, Form.text_word, Expr.text_formOr, body.text_form]
  | .forLoop (some initial) test? step? body => by
    simp [Stmt.form, Stmt.polish, Form.text_headed, Form.textAll, Expr.text_formOr, initial.text_form,
      body.text_form]
  | .breakLoop | .continueLoop => by simp [Stmt.form, Stmt.polish, Form.text_headed, Form.textAll]
  | .funDecl decl => by rw [Stmt.form, Stmt.polish, decl.text_form]
  | .returnValue value? _ => by simp [Stmt.form, Stmt.polish, Form.text_headed, Expr.textAll_forms]
  | .classDecl name none methods _ => by
    simp [Stmt.form, Stmt.polish, Form.text_headed, Form.textAll, Form.text_word, FunctionDecl.textAll_forms methods]
  | .classDecl name (some use) methods _ => by
    simp [Stmt.form, Stmt.polish, Form.text_headed, Form.textAll, Form.text_word, FunctionDecl.textAll_forms methods]

theorem FunctionDecl.text_form : ∀ f : FunctionDecl, f.form.text = f.polish
  | { name, params, body, line := _ } => by
    simp [FunctionDecl.form, FunctionDecl.polish, Form.text_headed, Form.textAll, Form.text_word, Form.text_words,
      Stmt.textAll_forms body]

theorem Stmt.textAll_forms : ∀ ss : List Stmt, Form.textAll (Stmt.forms ss) = Stmt.polishAll ss
  | [] => rfl
  | s :: ss => by rw [Stmt.forms, Form.textAll, Stmt.polishAll, s.text_form, Stmt.textAll_forms ss]

theorem FunctionDecl.textAll_forms : ∀ fs : List FunctionDecl,
    Form.textAll (FunctionDecl.forms fs) = FunctionDecl.polishAll fs
  | [] => rfl
  | f :: fs => by
    rw [FunctionDecl.forms, Form.textAll, FunctionDecl.polishAll, f.text_form, FunctionDecl.textAll_forms fs]

end

theorem Stmt.toList_dump (program : List Stmt) : (Stmt.dump program).toList = Form.lines (Stmt.forms program) := by
  unfold Stmt.dump
  induction program with
  | nil => simp [Stmt.forms, Form.lines]
  | cons s ss ih =>
    rw [List.map_cons, String.join_cons, String.toList_append, ih, String.toList_append, ← s.text_form]
    rfl

/-! ### Reading forms -/

/-- A form and what it can be read as. -/
structure Operand where
  form : Form
  expr? : Option Expr
  stmt? : Option Stmt

def Operand.word? (operand : Operand) : Option String :=
  match operand.form with
  | .word text => some text
  | _ => none

/-- The words of a list of words. -/
def Operand.words? (operand : Operand) : Option (List String) :=
  match operand.form with
  | .list items => items.mapM fun item => (Operand.mk item none none).word?
  | _ => none

def Operand.decl? (operand : Operand) : Option FunctionDecl :=
  match operand.stmt? with
  | some (.funDecl decl) => some decl
  | _ => none

def UnaryOp.ofText? (text : String) : Option UnaryOp :=
  [.negate, .not].find? fun op => op.token.text = text

def BinaryOp.ofText? (text : String) : Option BinaryOp :=
  [.comma, .or, .and, .equal, .notEqual, .less, .lessEqual, .greater, .greaterEqual, .add, .subtract, .multiply,
    .divide].find? fun op => op.token.text = text

/-- A word is read as a keyword if it is one, then as one of the given numbers, and else as a variable. -/
def Expr.ofWord (numbers : List Float) (word : String) : Expr :=
  match Keyword.ofSpelling? word with
  | some .nilWord => .literal .nil
  | some .trueWord => .literal (.bool true)
  | some .falseWord => .literal (.bool false)
  | some .thisWord => .thisRef 0 0
  | _ =>
    match numbers.find? fun x => Number.text x = word with
    | some x => .literal (.number x)
    | none => .var ⟨0, word, 0⟩

def Expr.ofHead? (head : String) (operands : List Operand) : Option Expr :=
  match head, operands with
  | "group", [inner] => return .group (← inner.expr?)
  | "?:", [test, consequent, alternative] =>
    return .conditional (← test.expr?) (← consequent.expr?) (← alternative.expr?)
  | "=", [target, value] => return .assign ⟨0, ← target.word?, 0⟩ (← value.expr?)
  | "super", [method] => return .superRef 0 (← method.word?) 0
  | "call", callee :: arguments => return .call (← callee.expr?) (← arguments.mapM Operand.expr?) 0
  | ".", [object, name] => return .field (← object.expr?) (← name.word?) 0
  | ".=", [object, name, value] => return .setField (← object.expr?) (← name.word?) (← value.expr?) 0
  | "array", elements => return .array (← elements.mapM Operand.expr?)
  | "[]", [sequence, index] => return .element (← sequence.expr?) (← index.expr?) 0
  | "[]=", [sequence, index, value] =>
    return .setElement (← sequence.expr?) (← index.expr?) (← value.expr?) 0
  | _, [operand] => return .unary (← UnaryOp.ofText? head) (← operand.expr?) 0
  | _, [left, right] => return .binary (← BinaryOp.ofText? head) (← left.expr?) (← right.expr?) 0
  | _, _ => none

def Stmt.ofHead? (head : String) (operands : List Operand) : Option Stmt :=
  match head, operands with
  | ";", [value] => return .expr (← value.expr?)
  | "print", items => return .print (← items.mapM Operand.expr?) 0
  | "var", name :: initial => return .varDecl (← name.word?) (← initial.mapM Operand.expr?).head? 0
  | "block", body => return .block (← body.mapM Operand.stmt?)
  | "if", [test, consequent] => return .ifElse (← test.expr?) (← consequent.stmt?) none
  | "if", [test, consequent, alternative] =>
    return .ifElse (← test.expr?) (← consequent.stmt?) (some (← alternative.stmt?))
  | "while", [test, body] => return .whileLoop (← test.expr?) (← body.stmt?)
  | "for", [initial, test, step, body] =>
    return .forLoop initial.stmt? (some (← test.expr?)) (some (← step.expr?)) (← body.stmt?)
  | "break", [] => some .breakLoop
  | "continue", [] => some .continueLoop
  | "fun", name :: params :: body =>
    return .funDecl ⟨← name.word?, ← params.words?, ← body.mapM Operand.stmt?, 0⟩
  | "return", value => return .returnValue (← value.mapM Operand.expr?).head? 0
  | "class", name :: members =>
    match members with
    | ⟨.word "<", _, _⟩ :: superclass :: methods =>
      return .classDecl (← name.word?) (some ⟨0, ← superclass.word?, 0⟩) (← methods.mapM Operand.decl?) 0
    | methods => return .classDecl (← name.word?) none (← methods.mapM Operand.decl?) 0
  | _, _ => none

mutual

def Form.read (numbers : List Float) : Form → Operand
  | .word text => ⟨.word text, some (.ofWord numbers text), none⟩
  | .quoted contents => ⟨.quoted contents, some (.literal (.string contents)), none⟩
  | .list [] => ⟨.list [], none, none⟩
  | .list (head :: items) =>
    let operands := Form.readAll numbers items
    ⟨.list (head :: items), (head.read numbers).word?.bind (Expr.ofHead? · operands),
      (head.read numbers).word?.bind (Stmt.ofHead? · operands)⟩

def Form.readAll (numbers : List Float) : List Form → List Operand
  | [] => []
  | f :: fs => f.read numbers :: Form.readAll numbers fs

end

/-! ### Tokens of texts -/

/-- Tokens that a text can have, whose finite numbers are among given ones. -/
def Known (numbers : List Float) (ts : List Token) : Prop :=
  ∀ t ∈ ts, (∃ text, Lexeme text t) ∧ ∀ x, t = .number x → Number.infinite x = false → x ∈ numbers

variable {numbers : List Float}

@[simp] theorem known_append {ts us : List Token} : Known numbers (ts ++ us) ↔ Known numbers ts ∧ Known numbers us := by
  simp only [Known, List.forall_mem_append]

theorem known_cons {t : Token} {ts : List Token} :
    Known numbers (t :: ts) ↔ Known numbers [t] ∧ Known numbers ts := by
  rw [← known_append, List.singleton_append]

@[simp] theorem known_mark {m : Mark} {ts : List Token} : Known numbers (.mark m :: ts) ↔ Known numbers ts := by
  rw [known_cons, and_iff_right]
  rintro t member
  obtain rfl := List.mem_singleton.mp member
  exact ⟨⟨_, .mark m⟩, fun _ => Token.noConfusion⟩

@[simp] theorem known_keyword {k : Keyword} {ts : List Token} : Known numbers (.keyword k :: ts) ↔ Known numbers ts := by
  rw [known_cons, and_iff_right]
  rintro t member
  obtain rfl := List.mem_singleton.mp member
  exact ⟨⟨_, .keyword k⟩, fun _ => Token.noConfusion⟩

/-- Numbers that can be told by their numerals. -/
structure Tellable (numbers : List Float) : Prop where
  finite : ∀ x ∈ numbers, Number.Magnitude x ∧ Number.infinite x = false
  apart : ∀ x ∈ numbers, ∀ y ∈ numbers, Number.text x = Number.text y → x = y

/-- A name that stands for itself in a form. -/
def IsName (numbers : List Float) (name : String) : Prop :=
  IsWord name.toList ∧ Expr.ofWord numbers name = .var ⟨0, name, 0⟩

theorem plain_of_wordPart {c : Char} (part : isWordPart c) : isApart c = false := by
  rw [Bool.eq_false_iff]
  intro apart
  simp only [isApart, Bool.or_eq_true, decide_eq_true_eq] at apart
  rcases apart with (((rfl | rfl) | rfl) | rfl) | rfl <;> exact absurd part (by decide)

theorem plain_of_wordStart {c : Char} (start : isWordStart c) : isApart c = false :=
  plain_of_wordPart <| Bool.or_eq_true_iff.mpr <|
    (Bool.or_eq_true_iff.mp start).imp_left fun letter => Bool.or_eq_true_iff.mpr (Or.inl letter)

theorem plain_of_numeral {c : Char} (numeral : c.isDigit ∨ c = '.') : isApart c = false := by
  rcases numeral with digit | rfl
  · exact plain_of_wordPart (Bool.or_eq_true_iff.mpr (Or.inl (Bool.or_eq_true_iff.mpr (Or.inr digit))))
  · rfl

/-- A word that starts like one is no number. -/
theorem Expr.ofWord_name (tellable : Tellable numbers) {c : Char} (cs : List Char) (start : isWordStart c)
    (free : Keyword.ofSpelling? (.ofList (c :: cs)) = none) :
    Expr.ofWord numbers (.ofList (c :: cs)) = .var ⟨0, .ofList (c :: cs), 0⟩ := by
  have absent : numbers.find? (fun x => Number.text x = .ofList (c :: cs)) = none := by
    refine List.find?_eq_none.mpr fun x member same => ?_
    obtain ⟨magnitude, finite⟩ := tellable.finite x member
    rcases magnitude.text with ⟨infinite, -⟩ | ⟨-, numeral⟩
    · exact absurd (finite.symm.trans infinite) (by decide)
    · obtain ⟨d, ds, text, digit, -⟩ := numeral.chars
      rw [of_decide_eq_true same, String.toList_ofList] at text
      obtain ⟨rfl, -⟩ := List.cons.inj text
      exact absurd start (by rw [isWordStart_of_isDigit digit]; decide)
  unfold Expr.ofWord
  rw [free]
  simp only [absent]

theorem isName_of_known (tellable : Tellable numbers) {name : String} {ts : List Token}
    (known : Known numbers (.identifier name :: ts)) : IsName numbers name := by
  obtain ⟨⟨text, lexeme⟩, -⟩ := known _ List.mem_cons_self
  cases lexeme with
  | @identifier c cs start parts free =>
    refine ⟨⟨by simp, fun d member => ?_⟩, Expr.ofWord_name tellable cs start (Keyword.ofSpelling?_eq_none free)⟩
    rw [String.toList_ofList] at member
    rcases List.mem_cons.mp member with rfl | member
    · exact plain_of_wordStart start
    · exact plain_of_wordPart (parts d member)

theorem ofWord_number (tellable : Tellable numbers) {x : Float} (member : x ∈ numbers) :
    IsWord (Number.text x).toList ∧ Expr.ofWord numbers (Number.text x) = .literal (.number x) := by
  obtain ⟨magnitude, finite⟩ := tellable.finite x member
  rcases magnitude.text with ⟨infinite, -⟩ | ⟨-, numeral⟩
  · exact absurd (finite.symm.trans infinite) (by decide)
  obtain ⟨d, ds, text, digit, all⟩ := numeral.chars
  refine ⟨⟨by rw [text]; exact List.cons_ne_nil _ _, fun c inside => plain_of_numeral (all c inside)⟩, ?_⟩
  have free : Keyword.ofSpelling? (Number.text x) = none := by
    rw [← String.ofList_toList (s := Number.text x)]
    refine Keyword.ofSpelling?_eq_none fun k same => ?_
    obtain ⟨c, cs, spelled, start, -⟩ := k.spelling_word
    rw [text, spelled] at same
    obtain ⟨rfl, -⟩ := List.cons.inj same
    exact absurd start (by rw [isWordStart_of_isDigit digit]; decide)
  have found : numbers.find? (fun y => Number.text y = Number.text x) = some x := by
    cases found : numbers.find? fun y => Number.text y = Number.text x with
    | none => exact absurd (List.find?_eq_none.mp found x member) (by simp)
    | some y =>
      have same : Number.text y = Number.text x := by
        simpa using List.find?_some found
      rw [tellable.apart y (List.mem_of_find?_eq_some found) x member same]
  unfold Expr.ofWord
  rw [free]
  simp only [found]

/-! ### Forms are read as what they show -/

instance (cs : List Char) : Decidable (IsWord cs) :=
  decidable_of_iff (cs ≠ [] ∧ cs.all (! isApart ·)) (by simp [IsWord])

theorem Form.read_headed (head : String) (operands : List Form) :
    (Form.headed head operands).read numbers = ⟨.headed head operands,
      Expr.ofHead? head (Form.readAll numbers operands), Stmt.ofHead? head (Form.readAll numbers operands)⟩ := by
  rw [Form.headed, Form.read, Form.read]
  rfl

theorem Form.read_word (text : String) :
    (Form.word text).read numbers = ⟨.word text, some (Expr.ofWord numbers text), none⟩ := by
  rw [Form.read]

theorem Form.form_read (f : Form) : (f.read numbers).form = f := by
  cases f with
  | word | quoted => rw [Form.read]
  | list items => cases items <;> rw [Form.read]

theorem UnaryOp.word (op : UnaryOp) : IsWord op.token.text.toList ∧ UnaryOp.ofText? op.token.text = some op := by
  cases op <;> decide

theorem BinaryOp.word (op : BinaryOp) : IsWord op.token.text.toList ∧ BinaryOp.ofText? op.token.text = some op := by
  cases op <;> decide

/-- The form of an expression is legible, and is read as the expression that it shows. -/
def Expr.Told (numbers : List Float) (e : Expr) : Prop :=
  e.form.Legible ∧ (e.form.read numbers).expr? = some e.shown.erase

def Expr.ToldAll (numbers : List Float) (es : List Expr) : Prop :=
  Form.LegibleAll (Expr.forms es) ∧
    (Form.readAll numbers (Expr.forms es)).mapM Operand.expr? = some (Expr.eraseAll (Expr.shownAll es))

/-- A number of a text is none below zero. -/
theorem magnitude_of_lexeme {text : List Char} {x : Float} (lexeme : Lexeme text (.number x)) :
    Number.Magnitude x := by
  cases lexeme <;> exact Number.ofDigits_magnitude _ _

theorem raw_of_lexeme {text : List Char} {contents : String} (lexeme : Lexeme text (.string contents)) :
    '"' ∉ contents.toList := by
  cases lexeme with
  | string raw => simpa using raw

theorem Literal.told (tellable : Tellable numbers) {value : Literal} (known : Known numbers [value.token]) :
    Expr.Told numbers (.literal value) := by
  obtain ⟨⟨text, lexeme⟩, listed⟩ := known value.token List.mem_cons_self
  cases value with
  | nil => exact ⟨(by decide : IsWord "nil".toList), rfl⟩
  | bool value =>
    cases value with
    | true => exact ⟨(by decide : IsWord "true".toList), rfl⟩
    | false => exact ⟨(by decide : IsWord "false".toList), rfl⟩
  | string contents => exact ⟨raw_of_lexeme lexeme, rfl⟩
  | number x =>
    have form : (Expr.literal (.number x)).form = .word (Number.text x) := rfl
    rcases (magnitude_of_lexeme lexeme).text with ⟨infinite, text⟩ | ⟨finite, -⟩
    · have shown : (Expr.literal (.number x)).shown.erase = .var ⟨0, "inf", 0⟩ := by
        rw [Expr.shown, Literal.shown, if_pos infinite]
        rfl
      rw [Expr.Told, form, text, shown, Form.read_word]
      exact ⟨(by decide : IsWord "inf".toList),
        congrArg some (Expr.ofWord_name tellable ['n', 'f'] (show isWordStart 'i' by decide) (by decide))⟩
    · have shown : (Expr.literal (.number x)).shown.erase = .literal (.number x) := by
        rw [Expr.shown, Literal.shown, finite]
        rfl
      obtain ⟨word, read⟩ := ofWord_number tellable (listed x rfl finite)
      rw [Expr.Told, form, shown, Form.read_word]
      exact ⟨word, congrArg some read⟩

theorem known_items {es : List Expr} (known : Known numbers (Expr.itemTokens es)) :
    ∀ e ∈ es, Known numbers e.tokens := by
  have more : ∀ es, Known numbers (Expr.moreTokens es) → ∀ e ∈ es, Known numbers e.tokens := by
    intro es
    induction es with
    | nil => exact fun _ => List.forall_mem_nil _
    | cons e es ih =>
      intro known
      simp only [Expr.moreTokens, List.cons_append, known_mark, known_append] at known
      exact List.forall_mem_cons.mpr ⟨known.1, ih known.2⟩
  cases es with
  | nil => exact List.forall_mem_nil _
  | cons e es =>
    obtain ⟨first, others⟩ := known_append.mp known
    exact List.forall_mem_cons.mpr ⟨first, more es others⟩

/-- The parts of an operation and what they are read as give the operation. -/
theorem told_headed {e : Expr} {head : String} {operands : List Form} (form : e.form = .headed head operands)
    (word : IsWord head.toList) (legible : Form.LegibleAll operands)
    (read : Expr.ofHead? head (Form.readAll numbers operands) = some e.shown.erase) : e.Told numbers := by
  rw [Expr.Told, form, Form.read_headed]
  exact ⟨⟨word, legible⟩, read⟩

theorem ofHead?_unary (op : UnaryOp) (operand : Operand) :
    Expr.ofHead? op.token.text [operand] = operand.expr?.map (Expr.unary op · 0) := by
  obtain ⟨_, expr?, _⟩ := operand
  cases op <;> cases expr? <;> rfl

theorem ofHead?_binary (op : BinaryOp) (left right : Operand) :
    Expr.ofHead? op.token.text [left, right] =
      left.expr?.bind fun l => right.expr?.map fun r => Expr.binary op l r 0 := by
  obtain ⟨_, first?, _⟩ := left
  obtain ⟨_, second?, _⟩ := right
  cases op <;> cases first? <;> cases second? <;> rfl

@[simp] theorem Form.word?_read (text : String) : ((Form.word text).read numbers).word? = some text := by
  rw [Form.read_word]
  rfl

mutual

theorem Expr.told (tellable : Tellable numbers) : ∀ e : Expr, Known numbers e.tokens → e.Told numbers
  | .literal value, known => Literal.told tellable known
  | .group inner, known => by
    simp only [Expr.tokens, List.cons_append, known_mark, known_append] at known
    obtain ⟨legible, read⟩ := inner.told tellable known.1
    refine told_headed rfl (by decide) ⟨legible, trivial⟩ ?_
    simp [Form.readAll, Expr.ofHead?, read, Expr.shown, Expr.erase]
  | .unary op operand _, known => by
    obtain ⟨legible, read⟩ := operand.told tellable (known_cons.mp known).2
    refine told_headed rfl op.word.1 ⟨legible, trivial⟩ ?_
    simp [Form.readAll, ofHead?_unary, read, Expr.shown, Expr.erase]
  | .binary op left right _, known => by
    obtain ⟨first, second⟩ := known_append.mp known
    obtain ⟨legible, read⟩ := left.told tellable first
    obtain ⟨legible', read'⟩ := right.told tellable (known_cons.mp second).2
    refine told_headed rfl op.word.1 ⟨legible, legible', trivial⟩ ?_
    simp [Form.readAll, ofHead?_binary, read, read', Expr.shown, Expr.erase]
  | .conditional test consequent alternative, known => by
    simp only [Expr.tokens, known_mark, known_append] at known
    obtain ⟨legible, read⟩ := test.told tellable known.1.1
    obtain ⟨legible', read'⟩ := consequent.told tellable known.1.2
    obtain ⟨legible'', read''⟩ := alternative.told tellable known.2
    refine told_headed rfl (by decide) ⟨legible, legible', legible'', trivial⟩ ?_
    simp [Form.readAll, Expr.ofHead?, read, read', read'', Expr.shown, Expr.erase]
  | .var use, known => by
    obtain ⟨word, read⟩ := isName_of_known tellable known
    rw [Expr.Told, Expr.form, Form.read_word]
    exact ⟨word, congrArg some read⟩
  | .assign target value, known => by
    obtain ⟨word, -⟩ := isName_of_known tellable known
    obtain ⟨legible, read⟩ := value.told tellable (known_mark.mp (known_cons.mp known).2)
    refine told_headed rfl (by decide) ⟨word, legible, trivial⟩ ?_
    simp [Form.readAll, Expr.ofHead?, read, Expr.shown, Expr.erase, Use.erase]
  | .thisRef _ _, _ => ⟨(by decide : IsWord "this".toList), rfl⟩
  | .superRef _ method _, known => by
    simp only [Expr.tokens, known_mark, known_keyword] at known
    obtain ⟨word, -⟩ := isName_of_known tellable known
    refine told_headed rfl (by decide) ⟨word, trivial⟩ ?_
    simp [Form.readAll, Expr.ofHead?, Expr.shown, Expr.erase]
  | .call callee arguments _, known => by
    simp only [Expr.tokens, List.append_assoc, List.cons_append, known_mark, known_append] at known
    obtain ⟨legible, read⟩ := callee.told tellable known.1
    obtain ⟨legibleAll, readAll⟩ := Expr.toldAll tellable arguments (known_items known.2.1)
    refine told_headed rfl (by decide) ⟨legible, legibleAll⟩ ?_
    simp [Form.readAll, Expr.ofHead?, read, readAll, Expr.shown, Expr.erase]
  | .field object name _, known => by
    simp only [Expr.tokens, known_mark, known_append] at known
    obtain ⟨legible, read⟩ := object.told tellable known.1
    obtain ⟨word, -⟩ := isName_of_known tellable known.2
    refine told_headed rfl (by decide) ⟨legible, word, trivial⟩ ?_
    simp [Form.readAll, Expr.ofHead?, read, Expr.shown, Expr.erase]
  | .setField object name value _, known => by
    simp only [Expr.tokens, known_mark, known_append] at known
    obtain ⟨legible, read⟩ := object.told tellable known.1
    obtain ⟨word, -⟩ := isName_of_known tellable known.2
    obtain ⟨legible', read'⟩ := value.told tellable (known_mark.mp (known_cons.mp known.2).2)
    refine told_headed rfl (by decide) ⟨legible, word, legible', trivial⟩ ?_
    simp [Form.readAll, Expr.ofHead?, read, read', Expr.shown, Expr.erase]
  | .array elements, known => by
    simp only [Expr.tokens, List.cons_append, known_mark, known_append] at known
    obtain ⟨legible, read⟩ := Expr.toldAll tellable elements (known_items known.1)
    refine told_headed rfl (by decide) legible ?_
    simp [Expr.ofHead?, read, Expr.shown, Expr.erase]
  | .element sequence index _, known => by
    simp only [Expr.tokens, List.append_assoc, List.cons_append, known_mark, known_append] at known
    obtain ⟨legible, read⟩ := sequence.told tellable known.1
    obtain ⟨legible', read'⟩ := index.told tellable known.2.1
    refine told_headed rfl (by decide) ⟨legible, legible', trivial⟩ ?_
    simp [Form.readAll, Expr.ofHead?, read, read', Expr.shown, Expr.erase]
  | .setElement sequence index value _, known => by
    simp only [Expr.tokens, List.append_assoc, List.cons_append, known_mark, known_append] at known
    obtain ⟨legible, read⟩ := sequence.told tellable known.1
    obtain ⟨legible', read'⟩ := index.told tellable known.2.1
    obtain ⟨legible'', read''⟩ := value.told tellable known.2.2
    refine told_headed rfl (by decide) ⟨legible, legible', legible'', trivial⟩ ?_
    simp [Form.readAll, Expr.ofHead?, read, read', read'', Expr.shown, Expr.erase]

theorem Expr.toldAll (tellable : Tellable numbers) : ∀ es : List Expr, (∀ e ∈ es, Known numbers e.tokens) →
    Expr.ToldAll numbers es
  | [], _ => ⟨trivial, rfl⟩
  | e :: es, known => by
    obtain ⟨first, others⟩ := List.forall_mem_cons.mp known
    obtain ⟨legible, read⟩ := e.told tellable first
    obtain ⟨legibleAll, readAll⟩ := Expr.toldAll tellable es others
    refine ⟨⟨legible, legibleAll⟩, ?_⟩
    simp [Expr.forms, Form.readAll, List.mapM_cons, read, readAll, Expr.shownAll, Expr.eraseAll]

end

/-! ### Statements -/

/-- The form of a statement is legible, and is read as the statement that it shows. -/
def Stmt.Told (numbers : List Float) (s : Stmt) : Prop :=
  s.form.Legible ∧ (s.form.read numbers).stmt? = some s.shown.erase

def Stmt.ToldAll (numbers : List Float) (ss : List Stmt) : Prop :=
  Form.LegibleAll (Stmt.forms ss) ∧
    (Form.readAll numbers (Stmt.forms ss)).mapM Operand.stmt? = some (Stmt.eraseAll (Stmt.shownAll ss))

def FunctionDecl.Told (numbers : List Float) (f : FunctionDecl) : Prop :=
  f.form.Legible ∧ (f.form.read numbers).stmt? = some (.funDecl f.shown.erase)

def FunctionDecl.ToldAll (numbers : List Float) (fs : List FunctionDecl) : Prop :=
  Form.LegibleAll (FunctionDecl.forms fs) ∧
    (Form.readAll numbers (FunctionDecl.forms fs)).mapM Operand.decl? =
      some (FunctionDecl.eraseAll (FunctionDecl.shownAll fs))

theorem told_headed_stmt {s : Stmt} {head : String} {operands : List Form} (form : s.form = .headed head operands)
    (word : IsWord head.toList) (legible : Form.LegibleAll operands)
    (read : Stmt.ofHead? head (Form.readAll numbers operands) = some s.shown.erase) : s.Told numbers := by
  rw [Stmt.Told, form, Form.read_headed]
  exact ⟨⟨word, legible⟩, read⟩

theorem Expr.toldOr (tellable : Tellable numbers) {e? : Option Expr} (known : Known numbers (Expr.optTokens e?)) :
    (Expr.formOr e?).Legible ∧ ((Expr.formOr e?).read numbers).expr? = some (Expr.shownOr e?).erase := by
  cases e? with
  | none => exact ⟨(by decide : IsWord "nil".toList), rfl⟩
  | some e => exact e.told tellable known

theorem Expr.toldOpt (tellable : Tellable numbers) {e? : Option Expr} (known : Known numbers (Expr.optTokens e?)) :
    Form.LegibleAll (Expr.forms e?.toList) ∧
      ∃ es, (Form.readAll numbers (Expr.forms e?.toList)).mapM Operand.expr? = some es ∧
        es.head? = (e?.map Expr.shown).map Expr.erase := by
  cases e? with
  | none => exact ⟨trivial, [], rfl, rfl⟩
  | some e =>
    obtain ⟨legible, read⟩ := Expr.toldAll tellable [e] fun _ member => List.mem_singleton.mp member ▸ known
    exact ⟨legible, _, read, rfl⟩

theorem names_of_params (tellable : Tellable numbers) {names : List String} (known : Known numbers (paramTokens names)) :
    ∀ name ∈ names, IsName numbers name := by
  have more : ∀ names, Known numbers (moreParamTokens names) → ∀ name ∈ names, IsName numbers name := by
    intro names
    induction names with
    | nil => exact fun _ name member => nomatch member
    | cons name names ih =>
      intro known
      have others := known_mark.mp known
      exact List.forall_mem_cons.mpr ⟨isName_of_known tellable others, ih (known_cons.mp others).2⟩
  cases names with
  | nil => exact fun name member => nomatch member
  | cons name names =>
    exact List.forall_mem_cons.mpr ⟨isName_of_known tellable known, more names (known_cons.mp known).2⟩

theorem legible_words {names : List String} (all : ∀ name ∈ names, IsName numbers name) :
    (Form.list (names.map .word)).Legible := by
  refine Form.legibleAll_iff.mpr fun f member => ?_
  obtain ⟨name, inside, rfl⟩ := List.mem_map.mp member
  exact (all name inside).1

@[simp] theorem Form.words?_read (names : List String) :
    ((Form.list (names.map .word)).read numbers).words? = some names := by
  rw [Operand.words?, Form.form_read]
  simp only
  induction names with
  | nil => rfl
  | cons name names ih => rw [List.map_cons, List.mapM_cons, ih]; rfl

theorem FunctionDecl.read_list (numbers : List Float) (f : FunctionDecl) :
    ∃ items e? s?, f.form.read numbers = ⟨.list items, e?, s?⟩ := by
  obtain ⟨name, params, body, line⟩ := f
  exact ⟨_, _, _, Form.read_headed _ _⟩

mutual

theorem Stmt.told (tellable : Tellable numbers) : ∀ s : Stmt, Known numbers s.tokens → s.Told numbers
  | .expr value, known => by
    obtain ⟨legible, read⟩ := value.told tellable (known_append.mp known).1
    refine told_headed_stmt rfl (by decide) ⟨legible, trivial⟩ ?_
    simp [Form.readAll, Stmt.ofHead?, read, Stmt.shown, Stmt.erase]
  | .print items _, known => by
    simp only [Stmt.tokens, List.cons_append, known_keyword, known_append] at known
    obtain ⟨legible, read⟩ := Expr.toldAll tellable items (known_items known.1)
    refine told_headed_stmt rfl (by decide) legible ?_
    simp [Stmt.ofHead?, read, Stmt.shown, Stmt.erase]
  | .varDecl name none _, known => by
    obtain ⟨word, -⟩ := isName_of_known tellable (known_keyword.mp known)
    refine told_headed_stmt rfl (by decide) ⟨word, trivial⟩ ?_
    simp [Form.readAll, Expr.forms, Stmt.ofHead?, Stmt.shown, Stmt.erase]
  | .varDecl name (some initial) _, known => by
    have named := known_keyword.mp known
    obtain ⟨word, -⟩ := isName_of_known tellable named
    obtain ⟨legible, read⟩ := initial.told tellable (known_append.mp (known_mark.mp (known_cons.mp named).2)).1
    refine told_headed_stmt rfl (by decide) ⟨word, legible, trivial⟩ ?_
    simp [Form.readAll, Expr.forms, List.mapM_cons, read, Stmt.ofHead?, Stmt.shown, Stmt.erase]
  | .block body, known => by
    simp only [Stmt.tokens, List.cons_append, known_mark, known_append] at known
    obtain ⟨legible, read⟩ := Stmt.toldAll tellable body known.1
    refine told_headed_stmt rfl (by decide) legible ?_
    simp [Stmt.ofHead?, read, Stmt.shown, Stmt.erase]
  | .ifElse test consequent none, known => by
    simp only [Stmt.tokens, List.cons_append, known_mark, known_keyword, known_append] at known
    obtain ⟨legible, read⟩ := test.told tellable known.1
    obtain ⟨legible', read'⟩ := consequent.told tellable known.2
    refine told_headed_stmt rfl (by decide) ⟨legible, legible', trivial⟩ ?_
    simp [Form.readAll, Stmt.ofHead?, read, read', Stmt.shown, Stmt.erase]
  | .ifElse test consequent (some alternative), known => by
    simp only [Stmt.tokens, List.cons_append, List.append_assoc, known_mark, known_keyword, known_append] at known
    obtain ⟨legible, read⟩ := test.told tellable known.1
    obtain ⟨legible', read'⟩ := consequent.told tellable known.2.1
    obtain ⟨legible'', read''⟩ := alternative.told tellable known.2.2
    refine told_headed_stmt rfl (by decide) ⟨legible, legible', legible'', trivial⟩ ?_
    simp [Form.readAll, Stmt.ofHead?, read, read', read'', Stmt.shown, Stmt.erase]
  | .whileLoop test body, known => by
    simp only [Stmt.tokens, List.cons_append, known_mark, known_keyword, known_append] at known
    obtain ⟨legible, read⟩ := test.told tellable known.1
    obtain ⟨legible', read'⟩ := body.told tellable known.2
    refine told_headed_stmt rfl (by decide) ⟨legible, legible', trivial⟩ ?_
    simp [Form.readAll, Stmt.ofHead?, read, read', Stmt.shown, Stmt.erase]
  | .forLoop none test? step? body, known => by
    simp only [Stmt.tokens, List.cons_append, List.append_assoc, known_mark, known_keyword, known_append] at known
    obtain ⟨legible, read⟩ := Expr.toldOr tellable known.1
    obtain ⟨legible', read'⟩ := Expr.toldOr tellable known.2.1
    obtain ⟨legible'', read''⟩ := body.told tellable known.2.2
    refine told_headed_stmt rfl (by decide)
      ⟨(by decide : IsWord "nil".toList), legible, legible', legible'', trivial⟩ ?_
    simp [Form.readAll, Form.read_word, Stmt.ofHead?, read, read', read'', Stmt.shown, Stmt.erase]
  | .forLoop (some initial) test? step? body, known => by
    simp only [Stmt.tokens, List.cons_append, List.append_assoc, known_mark, known_keyword, known_append] at known
    obtain ⟨legible₀, read₀⟩ := initial.told tellable known.1
    obtain ⟨legible, read⟩ := Expr.toldOr tellable known.2.1
    obtain ⟨legible', read'⟩ := Expr.toldOr tellable known.2.2.1
    obtain ⟨legible'', read''⟩ := body.told tellable known.2.2.2
    refine told_headed_stmt rfl (by decide) ⟨legible₀, legible, legible', legible'', trivial⟩ ?_
    simp [Form.readAll, Stmt.ofHead?, read₀, read, read', read'', Stmt.shown, Stmt.erase]
  | .breakLoop, _ => told_headed_stmt rfl (by decide) trivial rfl
  | .continueLoop, _ => told_headed_stmt rfl (by decide) trivial rfl
  | .funDecl decl, known => decl.told tellable (known_keyword.mp known)
  | .returnValue value? _, known => by
    simp only [Stmt.tokens, List.cons_append, known_keyword, known_append] at known
    obtain ⟨legible, es, read, head⟩ := Expr.toldOpt tellable known.1
    refine told_headed_stmt rfl (by decide) legible ?_
    simp [Stmt.ofHead?, read, head, Stmt.shown, Stmt.erase]
  | .classDecl name none methods _, known => by
    simp only [Stmt.tokens, superclassTokens, List.cons_append, List.nil_append, known_keyword] at known
    obtain ⟨word, -⟩ := isName_of_known tellable known
    have members := (known_append.mp (known_mark.mp (known_cons.mp known).2)).1
    obtain ⟨legible, read⟩ := FunctionDecl.toldAll tellable methods members
    refine told_headed_stmt rfl (by decide) ⟨word, legible⟩ ?_
    -- No method is taken for the mark in front of a superclass.
    cases methods with
    | nil => rfl
    | cons f fs =>
      obtain ⟨items, e?, s?, first⟩ := f.read_list numbers
      rw [FunctionDecl.forms, Form.readAll, first] at read
      rw [FunctionDecl.forms, Form.readAll, Form.readAll, first]
      simp [Stmt.ofHead?, read, Stmt.shown, Stmt.erase]
  | .classDecl name (some superclass) methods _, known => by
    simp only [Stmt.tokens, superclassTokens, List.cons_append, List.nil_append, known_keyword] at known
    obtain ⟨word, -⟩ := isName_of_known tellable known
    have behind := known_mark.mp (known_cons.mp known).2
    obtain ⟨word', -⟩ := isName_of_known tellable behind
    have members := (known_append.mp (known_mark.mp (known_cons.mp behind).2)).1
    obtain ⟨legible, read⟩ := FunctionDecl.toldAll tellable methods members
    refine told_headed_stmt rfl (by decide) ⟨word, (by decide : IsWord "<".toList), word', legible⟩ ?_
    have mark : (Form.word "<").read numbers = ⟨.word "<", some (Expr.ofWord numbers "<"), none⟩ := Form.read_word "<"
    simp [Form.readAll, mark, Stmt.ofHead?, read, Stmt.shown, Stmt.erase, Use.erase]

theorem FunctionDecl.told (tellable : Tellable numbers) : ∀ f : FunctionDecl, Known numbers f.tokens → f.Told numbers
  | { name, params, body, line }, known => by
    simp only [FunctionDecl.tokens, List.cons_append, List.append_assoc] at known
    obtain ⟨word, -⟩ := isName_of_known tellable known
    have behind := known_mark.mp (known_cons.mp known).2
    obtain ⟨named, inside⟩ := known_append.mp behind
    have words := legible_words (names_of_params tellable named)
    obtain ⟨legible, read⟩ := Stmt.toldAll tellable body (known_append.mp (known_mark.mp (known_mark.mp inside))).1
    refine told_headed_stmt (s := .funDecl ⟨name, params, body, line⟩) rfl (by decide) ⟨word, words, legible⟩ ?_
    simp [Form.readAll, Stmt.ofHead?, read, Stmt.shown, Stmt.erase, FunctionDecl.shown, FunctionDecl.erase]

theorem Stmt.toldAll (tellable : Tellable numbers) : ∀ ss : List Stmt, Known numbers (Stmt.tokensAll ss) →
    Stmt.ToldAll numbers ss
  | [], _ => ⟨trivial, rfl⟩
  | s :: ss, known => by
    obtain ⟨first, others⟩ := known_append.mp known
    obtain ⟨legible, read⟩ := s.told tellable first
    obtain ⟨legibleAll, readAll⟩ := Stmt.toldAll tellable ss others
    refine ⟨⟨legible, legibleAll⟩, ?_⟩
    simp [Stmt.forms, Form.readAll, List.mapM_cons, read, readAll, Stmt.shownAll, Stmt.eraseAll]

theorem FunctionDecl.toldAll (tellable : Tellable numbers) : ∀ fs : List FunctionDecl,
    Known numbers (FunctionDecl.tokensAll fs) → FunctionDecl.ToldAll numbers fs
  | [], _ => ⟨trivial, rfl⟩
  | f :: fs, known => by
    obtain ⟨first, others⟩ := known_append.mp known
    obtain ⟨legible, read⟩ := f.told tellable first
    obtain ⟨legibleAll, readAll⟩ := FunctionDecl.toldAll tellable fs others
    refine ⟨⟨legible, legibleAll⟩, ?_⟩
    simp [FunctionDecl.forms, Form.readAll, List.mapM_cons, Operand.decl?, read, readAll, FunctionDecl.shownAll,
      FunctionDecl.eraseAll]

end

/-! ### What is shown has the same form -/

theorem Literal.form_shown (value : Literal) : value.shown.erase.form = value.form := by
  cases value with
  | number x =>
    rw [Literal.shown]
    split
    · next infinite => exact congrArg Form.word (Number.text_infinite infinite).symm
    · rfl
  | _ => rfl

mutual

theorem Expr.form_shown : ∀ e : Expr, e.shown.erase.form = e.form
  | .literal value => value.form_shown
  | .group inner => by simp [Expr.shown, Expr.erase, Expr.form, inner.form_shown]
  | .unary _ operand _ => by simp [Expr.shown, Expr.erase, Expr.form, operand.form_shown]
  | .binary _ left right _ => by simp [Expr.shown, Expr.erase, Expr.form, left.form_shown, right.form_shown]
  | .conditional test consequent alternative => by
    simp [Expr.shown, Expr.erase, Expr.form, test.form_shown, consequent.form_shown, alternative.form_shown]
  | .var _ | .thisRef _ _ | .superRef _ _ _ => rfl
  | .assign _ value => by simp [Expr.shown, Expr.erase, Expr.form, Use.erase, value.form_shown]
  | .call callee arguments _ => by
    simp [Expr.shown, Expr.erase, Expr.form, callee.form_shown, Expr.forms_shown arguments]
  | .field object _ _ => by simp [Expr.shown, Expr.erase, Expr.form, object.form_shown]
  | .setField object _ value _ => by
    simp [Expr.shown, Expr.erase, Expr.form, object.form_shown, value.form_shown]
  | .array elements => by simp [Expr.shown, Expr.erase, Expr.form, Expr.forms_shown elements]
  | .element sequence index _ => by
    simp [Expr.shown, Expr.erase, Expr.form, sequence.form_shown, index.form_shown]
  | .setElement sequence index value _ => by
    simp [Expr.shown, Expr.erase, Expr.form, sequence.form_shown, index.form_shown, value.form_shown]

theorem Expr.forms_shown : ∀ es : List Expr, Expr.forms (Expr.eraseAll (Expr.shownAll es)) = Expr.forms es
  | [] => rfl
  | e :: es => by rw [Expr.shownAll, Expr.eraseAll, Expr.forms, Expr.forms, e.form_shown, Expr.forms_shown es]

end

theorem Expr.formOr_shown (e? : Option Expr) : (Expr.shownOr e?).erase.form = Expr.formOr e? := by
  cases e? with
  | none => rfl
  | some e => exact e.form_shown

theorem Expr.formsOpt_shown (e? : Option Expr) :
    Expr.forms ((e?.map Expr.shown).map Expr.erase).toList = Expr.forms e?.toList := by
  cases e? with
  | none => rfl
  | some e => exact Expr.forms_shown [e]

mutual

theorem Stmt.form_shown : ∀ s : Stmt, s.shown.erase.form = s.form
  | .expr value => by simp [Stmt.shown, Stmt.erase, Stmt.form, value.form_shown]
  | .print items _ => by simp [Stmt.shown, Stmt.erase, Stmt.form, Expr.forms_shown items]
  | .varDecl name initial? _ => by rw [Stmt.shown, Stmt.erase, Stmt.form, Stmt.form, Expr.formsOpt_shown]
  | .block body => by simp [Stmt.shown, Stmt.erase, Stmt.form, Stmt.forms_shown body]
  | .ifElse test consequent none => by
    simp [Stmt.shown, Stmt.erase, Stmt.form, test.form_shown, consequent.form_shown]
  | .ifElse test consequent (some alternative) => by
    simp [Stmt.shown, Stmt.erase, Stmt.form, test.form_shown, consequent.form_shown, alternative.form_shown]
  | .whileLoop test body => by simp [Stmt.shown, Stmt.erase, Stmt.form, test.form_shown, body.form_shown]
  | .forLoop none test? step? body => by
    simp [Stmt.shown, Stmt.erase, Stmt.form, Expr.formOr, Expr.formOr_shown, body.form_shown]
  | .forLoop (some initial) test? step? body => by
    simp [Stmt.shown, Stmt.erase, Stmt.form, Expr.formOr, Expr.formOr_shown, initial.form_shown, body.form_shown]
  | .breakLoop | .continueLoop => rfl
  | .funDecl decl => by rw [Stmt.shown, Stmt.erase, Stmt.form, Stmt.form, decl.form_shown]
  | .returnValue value? _ => by rw [Stmt.shown, Stmt.erase, Stmt.form, Stmt.form, Expr.formsOpt_shown]
  | .classDecl _ none methods _ | .classDecl _ (some _) methods _ => by
    simp [Stmt.shown, Stmt.erase, Stmt.form, Use.erase, FunctionDecl.forms_shown methods]

theorem FunctionDecl.form_shown : ∀ f : FunctionDecl, f.shown.erase.form = f.form
  | { name, params, body, line } => by
    simp [FunctionDecl.shown, FunctionDecl.erase, FunctionDecl.form, Stmt.forms_shown body]

theorem Stmt.forms_shown : ∀ ss : List Stmt, Stmt.forms (Stmt.eraseAll (Stmt.shownAll ss)) = Stmt.forms ss
  | [] => rfl
  | s :: ss => by rw [Stmt.shownAll, Stmt.eraseAll, Stmt.forms, Stmt.forms, s.form_shown, Stmt.forms_shown ss]

theorem FunctionDecl.forms_shown : ∀ fs : List FunctionDecl,
    FunctionDecl.forms (FunctionDecl.eraseAll (FunctionDecl.shownAll fs)) = FunctionDecl.forms fs
  | [] => rfl
  | f :: fs => by
    rw [FunctionDecl.shownAll, FunctionDecl.eraseAll, FunctionDecl.forms, FunctionDecl.forms, f.form_shown,
      FunctionDecl.forms_shown fs]

end

/-- Programs of some tokens are dumped alike just if they show the same. -/
theorem Stmt.dump_eq_iff (tellable : Tellable numbers) {p q : List Stmt} (known : Known numbers (Stmt.tokensAll p))
    (known' : Known numbers (Stmt.tokensAll q)) :
    Stmt.dump p = Stmt.dump q ↔ Stmt.eraseAll (Stmt.shownAll p) = Stmt.eraseAll (Stmt.shownAll q) := by
  have forms : Stmt.dump p = Stmt.dump q ↔ Form.lines (Stmt.forms p) = Form.lines (Stmt.forms q) := by
    rw [← Stmt.toList_dump, ← Stmt.toList_dump, String.toList_inj]
  obtain ⟨legible, read⟩ := Stmt.toldAll tellable p known
  obtain ⟨legible', read'⟩ := Stmt.toldAll tellable q known'
  rw [forms]
  constructor
  · intro same
    rw [Form.lines_unique legible legible' same] at read
    exact Option.some.inj (read.symm.trans read')
  · intro same
    rw [← Stmt.forms_shown p, same, Stmt.forms_shown q]

end Lox
