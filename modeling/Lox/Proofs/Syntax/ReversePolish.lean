import Lox.Proofs.Lexeme.Respelling
import Lox.Proofs.Syntax.Origins
import Lox.Proofs.Syntax.Unpolish

/-!
Expressions read back from their reverse Polish forms. The words of a form are taken one after the other: an operand
goes on top of a stack, and an operation takes its operands from there. As long as each operation takes a fixed
number of them and no operand has the word of one, a form is that of one expression, but for its groups.
-/

namespace Lox

/-! ### What is shown of an expression -/

mutual

/-- An expression without its groups. -/
def Expr.ungrouped : Expr → Expr
  | .literal value => .literal value
  | .group inner => inner.ungrouped
  | .unary op operand line => .unary op operand.ungrouped line
  | .binary op left right line => .binary op left.ungrouped right.ungrouped line
  | .conditional test consequent alternative =>
    .conditional test.ungrouped consequent.ungrouped alternative.ungrouped
  | .var use => .var use
  | .assign target value => .assign target value.ungrouped
  | .thisRef id line => .thisRef id line
  | .superRef id method line => .superRef id method line
  | .call callee arguments line => .call callee.ungrouped (Expr.ungroupedAll arguments) line
  | .field object name line => .field object.ungrouped name line
  | .setField object name value line => .setField object.ungrouped name value.ungrouped line
  | .array elements => .array (Expr.ungroupedAll elements)
  | .element sequence index line => .element sequence.ungrouped index.ungrouped line
  | .setElement sequence index value line => .setElement sequence.ungrouped index.ungrouped value.ungrouped line

def Expr.ungroupedAll : List Expr → List Expr
  | [] => []
  | e :: es => e.ungrouped :: Expr.ungroupedAll es

end

/-- Whether there is no call and no array in an expression, whose words do not say how many operands they have. -/
def Expr.hasFixedArity : Expr → Bool
  | .call _ _ _ | .array _ => false
  | .literal _ | .var _ | .thisRef _ _ | .superRef _ _ _ => true
  | .group inner => inner.hasFixedArity
  | .unary _ operand _ => operand.hasFixedArity
  | .binary _ left right _ => left.hasFixedArity && right.hasFixedArity
  | .conditional test consequent alternative =>
    test.hasFixedArity && consequent.hasFixedArity && alternative.hasFixedArity
  | .assign _ value => value.hasFixedArity
  | .field object _ _ => object.hasFixedArity
  | .setField object _ value _ => object.hasFixedArity && value.hasFixedArity
  | .element sequence index _ => sequence.hasFixedArity && index.hasFixedArity
  | .setElement sequence index value _ =>
    sequence.hasFixedArity && index.hasFixedArity && value.hasFixedArity

mutual

theorem Expr.reverseWords_ungrouped : ∀ e : Expr, e.ungrouped.erase.reverseWords = e.reverseWords
  | .literal _ | .var _ | .thisRef _ _ | .superRef _ _ _ => rfl
  | .group inner => inner.reverseWords_ungrouped
  | .unary _ operand _ => by simp [Expr.ungrouped, Expr.erase, Expr.reverseWords, operand.reverseWords_ungrouped]
  | .binary _ left right _ => by
    simp [Expr.ungrouped, Expr.erase, Expr.reverseWords, left.reverseWords_ungrouped, right.reverseWords_ungrouped]
  | .conditional test consequent alternative => by
    simp [Expr.ungrouped, Expr.erase, Expr.reverseWords, test.reverseWords_ungrouped,
      consequent.reverseWords_ungrouped, alternative.reverseWords_ungrouped]
  | .assign _ value => by
    simp [Expr.ungrouped, Expr.erase, Expr.reverseWords, Use.erase, value.reverseWords_ungrouped]
  | .call callee arguments _ => by
    simp [Expr.ungrouped, Expr.erase, Expr.reverseWords, callee.reverseWords_ungrouped,
      Expr.reverseWordsAll_ungrouped arguments]
  | .field object _ _ => by simp [Expr.ungrouped, Expr.erase, Expr.reverseWords, object.reverseWords_ungrouped]
  | .setField object _ value _ => by
    simp [Expr.ungrouped, Expr.erase, Expr.reverseWords, object.reverseWords_ungrouped, value.reverseWords_ungrouped]
  | .array elements => by simp [Expr.ungrouped, Expr.erase, Expr.reverseWords, Expr.reverseWordsAll_ungrouped elements]
  | .element sequence index _ => by
    simp [Expr.ungrouped, Expr.erase, Expr.reverseWords, sequence.reverseWords_ungrouped, index.reverseWords_ungrouped]
  | .setElement sequence index value _ => by
    simp [Expr.ungrouped, Expr.erase, Expr.reverseWords, sequence.reverseWords_ungrouped,
      index.reverseWords_ungrouped, value.reverseWords_ungrouped]

theorem Expr.reverseWordsAll_ungrouped : ∀ es : List Expr,
    Expr.reverseWordsAll (Expr.eraseAll (Expr.ungroupedAll es)) = Expr.reverseWordsAll es
  | [] => rfl
  | e :: es => by
    simp [Expr.ungroupedAll, Expr.eraseAll, Expr.reverseWordsAll, e.reverseWords_ungrouped,
      Expr.reverseWordsAll_ungrouped es]

end

/-! ### Reading words -/

/-- A word of a reverse Polish form, or a string in its quotes. -/
def Form.ofWord (text : String) : Form :=
  match text.toList with
  | '"' :: cs => .quoted (.ofList cs.dropLast)
  | _ => .word text

/-- The words of operations. -/
def operationWords : List String :=
  ["~", "!", "?", "=", "super", ".", ".=", "[]", "[]=", ",", "or", "and", "==", "!=", "<", "<=", ">", ">=",
    "+", "-", "*", "/"]

/-- The operation that a word stands for, on operands from the top of a stack, and the rest of the stack. -/
def Expr.ofStack? (word : String) (stack : List Operand) : Option (Expr × List Operand) :=
  match word, stack with
  | "~", operand :: rest => return (.unary .negate (← operand.expr?) 0, rest)
  | "!", operand :: rest => return (.unary .not (← operand.expr?) 0, rest)
  | "?", alternative :: consequent :: test :: rest =>
    return (.conditional (← test.expr?) (← consequent.expr?) (← alternative.expr?), rest)
  | "=", value :: target :: rest => return (.assign ⟨0, ← target.word?, 0⟩ (← value.expr?), rest)
  | "super", method :: rest => return (.superRef 0 (← method.word?) 0, rest)
  | ".", name :: object :: rest => return (.field (← object.expr?) (← name.word?) 0, rest)
  | ".=", value :: name :: object :: rest =>
    return (.setField (← object.expr?) (← name.word?) (← value.expr?) 0, rest)
  | "[]", index :: sequence :: rest => return (.element (← sequence.expr?) (← index.expr?) 0, rest)
  | "[]=", value :: index :: sequence :: rest =>
    return (.setElement (← sequence.expr?) (← index.expr?) (← value.expr?) 0, rest)
  | word, right :: left :: rest =>
    return (.binary (← BinaryOp.ofText? word) (← left.expr?) (← right.expr?) 0, rest)
  | _, _ => none

/-- An expression as an operand. -/
def Operand.ofExpr (e : Expr) : Operand :=
  ⟨.list [], some e, none⟩

/-- A stack behind one more word. -/
def restack (numbers : List Float) (stack : List Operand) (item : Form) : List Operand :=
  match item with
  | .word text =>
    if text ∈ operationWords then
      match Expr.ofStack? text stack with
      | some (e, rest) => .ofExpr e :: rest
      | none => stack
    else item.read numbers :: stack
  | _ => item.read numbers :: stack

/-- Words can be told from what is around them, and together they leave some operands on a stack. -/
structure Brings (numbers : List Float) (words : List String) (operands : List Operand) : Prop where
  legible : ∀ word ∈ words, (Form.ofWord word).Legible ∧ (Form.ofWord word).text = word
  stacked : ∀ stack, (words.map Form.ofWord).foldl (restack numbers) stack = operands ++ stack

variable {numbers : List Float} {words others : List String} {operands above : List Operand}

theorem Form.ofWord_quoted (contents : String) : Form.ofWord ("\"" ++ contents ++ "\"") = .quoted contents := by
  have text : ("\"" ++ contents ++ "\"").toList = '"' :: (contents.toList ++ ['"']) := by simp
  simp only [Form.ofWord, text, List.dropLast_concat, String.ofList_toList]

theorem Form.ofWord_word {text : String} (word : IsWord text.toList) : Form.ofWord text = .word text := by
  unfold Form.ofWord
  split
  · next cs same => exact absurd (word.2 '"' (same ▸ List.mem_cons_self)) (by decide)
  · rfl

theorem Brings.append (first : Brings numbers words operands) (second : Brings numbers others above) :
    Brings numbers (words ++ others) (above ++ operands) := by
  refine ⟨List.forall_mem_append.mpr ⟨first.legible, second.legible⟩, fun stack => ?_⟩
  rw [List.map_append, List.foldl_append, first.stacked, second.stacked, List.append_assoc]

theorem legible_word {text : String} (word : IsWord text.toList) :
    ∀ other ∈ [text], (Form.ofWord other).Legible ∧ (Form.ofWord other).text = other := by
  intro other member
  obtain rfl := List.mem_singleton.mp member
  rw [Form.ofWord_word word]
  exact ⟨word, Form.text_word _⟩

/-- A word that is no operation is an operand. -/
theorem brings_word {text : String} (word : IsWord text.toList) (operand : text ∉ operationWords) :
    Brings numbers [text] [(Form.word text).read numbers] := by
  refine ⟨legible_word word, fun stack => ?_⟩
  rw [List.map_singleton, List.foldl_cons, List.foldl_nil, Form.ofWord_word word]
  exact if_neg operand

theorem operationWords_legible : ∀ word ∈ operationWords, IsWord word.toList := by
  decide

theorem Brings.operation {word : String} {e : Expr} (brings : Brings numbers words operands)
    (operation : word ∈ operationWords)
    (gives : ∀ stack, Expr.ofStack? word (operands ++ stack) = some (e, stack)) :
    Brings numbers (words ++ [word]) [.ofExpr e] := by
  have legible := operationWords_legible word operation
  refine ⟨List.forall_mem_append.mpr ⟨brings.legible, legible_word legible⟩, fun stack => ?_⟩
  rw [List.map_append, List.foldl_append, brings.stacked, List.map_singleton, List.foldl_cons, List.foldl_nil,
    Form.ofWord_word legible, restack, if_pos operation, gives]
  rfl

/-! ### Operands -/

/-- A token that a text can have. If it is a number, it is among given ones. -/
def Telling (numbers : List Float) (t : Token) : Prop :=
  (∃ text, Lexeme text t) ∧ ∀ x, t = .number x → x ∈ numbers

/-- No word of an operation starts with a digit, and those that start as a name does are keywords. -/
theorem operationWords_start : operationWords.all fun word => !word.toList.head?.any Char.isDigit &&
    ((Keyword.ofSpelling? word).isSome || !word.toList.head?.any isWordStart) := by
  decide

theorem no_operation {text : String} {c : Char} {cs : List Char} (starts : text.toList = c :: cs)
    (apart : c.isDigit ∨ isWordStart c ∧ Keyword.ofSpelling? text = none) : text ∉ operationWords := by
  intro member
  have start := List.all_eq_true.mp operationWords_start text member
  rcases apart with digit | ⟨letter, free⟩
  · simp [starts, digit] at start
  · simp [starts, letter, free] at start

theorem brings_name (tellable : Tellable numbers) {name : String} (telling : Telling numbers (.identifier name)) :
    Brings numbers [name] [(Form.word name).read numbers] ∧ Expr.ofWord numbers name = .var ⟨0, name, 0⟩ := by
  have known : Known numbers [.identifier name] := by
    intro t member
    obtain rfl := List.mem_singleton.mp member
    exact ⟨telling.1, fun x same _ => telling.2 x same⟩
  obtain ⟨word, read⟩ := isName_of_known tellable known
  refine ⟨brings_word word ?_, read⟩
  obtain ⟨text, lexeme⟩ := telling.1
  cases lexeme with
  | @identifier c cs start parts free =>
    exact no_operation String.toList_ofList (.inr ⟨start, Keyword.ofSpelling?_eq_none free⟩)

theorem brings_literal (tellable : Tellable numbers) {value : Literal} (telling : Telling numbers value.token) :
    ∃ operand, Brings numbers [value.token.text] [operand] ∧ operand.expr? = some (.literal value) := by
  obtain ⟨⟨text, lexeme⟩, listed⟩ := telling
  cases value with
  | nil => exact ⟨_, brings_word (by decide : IsWord "nil".toList) (by decide), rfl⟩
  | bool value =>
    cases value with
    | true => exact ⟨_, brings_word (by decide : IsWord "true".toList) (by decide), rfl⟩
    | false => exact ⟨_, brings_word (by decide : IsWord "false".toList) (by decide), rfl⟩
  | string contents =>
    have quoted : Form.ofWord (Literal.string contents).token.text = .quoted contents := Form.ofWord_quoted contents
    refine ⟨(Form.quoted contents).read numbers, ⟨fun other member => ?_, fun stack => ?_⟩, by rw [Form.read]⟩
    · obtain rfl := List.mem_singleton.mp member
      rw [quoted]
      exact ⟨raw_of_lexeme lexeme, by rw [Form.text]; rfl⟩
    · rw [List.map_singleton, quoted]
      rfl
  | number x =>
    obtain ⟨magnitude, finite⟩ := tellable.finite x (listed x rfl)
    obtain ⟨word, read⟩ := ofWord_number tellable (listed x rfl)
    have brings : Brings numbers [Number.text x] [(Form.word (Number.text x)).read numbers] := by
      refine brings_word word ?_
      rcases magnitude.text with ⟨infinite, -⟩ | ⟨-, numeral⟩
      · exact absurd (finite.symm.trans infinite) (by decide)
      · obtain ⟨d, ds, starts, digit, -⟩ := numeral.chars
        exact no_operation starts (.inl digit)
    exact ⟨_, brings, by rw [Form.read_word, read]⟩

/-! ### Operations -/

theorem UnaryOp.operation (op : UnaryOp) : op.reverseWord ∈ operationWords := by
  cases op <;> decide

theorem BinaryOp.operation (op : BinaryOp) : op.token.text ∈ operationWords := by
  cases op <;> decide

theorem ofStack?_unary (op : UnaryOp) (operand : Operand) (stack : List Operand) :
    Expr.ofStack? op.reverseWord (operand :: stack) = operand.expr?.map fun e => (Expr.unary op e 0, stack) := by
  obtain ⟨_, expr?, _⟩ := operand
  cases op <;> cases expr? <;> rfl

theorem ofStack?_binary (op : BinaryOp) (left right : Operand) (stack : List Operand) :
    Expr.ofStack? op.token.text (right :: left :: stack) =
      left.expr?.bind fun l => right.expr?.map fun r => (Expr.binary op l r 0, stack) := by
  obtain ⟨_, first?, _⟩ := left
  obtain ⟨_, second?, _⟩ := right
  cases op <;> cases first? <;> cases second? <;> rfl

/-- The words of an expression leave it on the stack, but for its groups. -/
def Expr.Stacked (numbers : List Float) (e : Expr) : Prop :=
  ∃ operand, Brings numbers e.reverseWords [operand] ∧ operand.expr? = some e.ungrouped.erase

/-- An operation behind the words of its operands. -/
theorem Brings.result {e : Expr} (word : String) (brings : Brings numbers words operands)
    (reverse : e.reverseWords = words ++ [word]) (operation : word ∈ operationWords)
    (gives : ∀ stack, Expr.ofStack? word (operands ++ stack) = some (e.ungrouped.erase, stack)) :
    e.Stacked numbers :=
  ⟨.ofExpr e.ungrouped.erase, reverse ▸ brings.operation operation gives, rfl⟩

/-- By induction over the expression: the words of an operand leave it on top of whatever is on the stack, so those
of an operation find their operands there, the last one first. -/
theorem Expr.stacked (tellable : Tellable numbers) : ∀ e : Expr, AllOf (Telling numbers) e.tokens →
    e.hasFixedArity → e.Stacked numbers
  | .literal value, telling, _ => brings_literal tellable (allOf_cons.mp telling).1
  | .group inner, telling, fixed => by
    simp only [Expr.tokens, List.cons_append, allOf_cons, allOf_append] at telling
    exact inner.stacked tellable telling.2.1 fixed
  | .unary op operand _, telling, fixed => by
    obtain ⟨top, brings, is⟩ := operand.stacked tellable (allOf_cons.mp telling).2 fixed
    refine brings.result op.reverseWord rfl op.operation fun stack => ?_
    rw [List.singleton_append, ofStack?_unary, is]
    rfl
  | .binary op left right _, telling, fixed => by
    simp only [Expr.tokens, allOf_cons, allOf_append] at telling
    obtain ⟨fixedLeft, fixedRight⟩ := Bool.and_eq_true_iff.mp fixed
    obtain ⟨below, first, isLeft⟩ := left.stacked tellable telling.1 fixedLeft
    obtain ⟨top, second, isRight⟩ := right.stacked tellable telling.2.2 fixedRight
    refine (first.append second).result op.token.text rfl op.operation fun stack => ?_
    simp [ofStack?_binary, isLeft, isRight, Expr.ungrouped, Expr.erase]
  | .conditional test consequent alternative, telling, fixed => by
    simp only [Expr.tokens, allOf_cons, allOf_append] at telling
    simp only [Expr.hasFixedArity, Bool.and_eq_true] at fixed
    obtain ⟨_, first, isTest⟩ := test.stacked tellable telling.1.1 fixed.1.1
    obtain ⟨_, second, isConsequent⟩ := consequent.stacked tellable telling.1.2.2 fixed.1.2
    obtain ⟨_, third, isAlternative⟩ := alternative.stacked tellable telling.2.2 fixed.2
    refine ((first.append second).append third).result "?" rfl (by decide) fun stack => ?_
    simp [Expr.ofStack?, isTest, isConsequent, isAlternative, Expr.ungrouped, Expr.erase]
  | .var use, telling, _ => by
    obtain ⟨brings, is⟩ := brings_name tellable (allOf_cons.mp telling).1
    exact ⟨_, brings, by rw [Form.read_word, is]; rfl⟩
  | .assign target value, telling, fixed => by
    obtain ⟨name, behind⟩ := allOf_cons.mp telling
    obtain ⟨first, -⟩ := brings_name tellable name
    obtain ⟨_, second, isValue⟩ := value.stacked tellable (allOf_cons.mp behind).2 fixed
    refine (first.append second).result "=" rfl (by decide) fun stack => ?_
    simp [Expr.ofStack?, isValue, Expr.ungrouped, Expr.erase, Use.erase]
  | .thisRef _ _, _, _ => ⟨_, brings_word (by decide) (by decide), rfl⟩
  | .superRef _ method _, telling, _ => by
    simp only [Expr.tokens, allOf_cons] at telling
    obtain ⟨brings, -⟩ := brings_name tellable telling.2.2.1
    refine brings.result "super" rfl (by decide) fun stack => ?_
    simp [Expr.ofStack?, Expr.ungrouped, Expr.erase]
  | .field object name _, telling, fixed => by
    simp only [Expr.tokens, allOf_cons, allOf_append] at telling
    obtain ⟨_, first, isObject⟩ := object.stacked tellable telling.1 fixed
    obtain ⟨second, -⟩ := brings_name tellable telling.2.2.1
    refine (first.append second).result "." (by simp [Expr.reverseWords]) (by decide) fun stack => ?_
    simp [Expr.ofStack?, isObject, Expr.ungrouped, Expr.erase]
  | .setField object name value _, telling, fixed => by
    simp only [Expr.tokens, allOf_cons, allOf_append] at telling
    obtain ⟨fixedObject, fixedValue⟩ := Bool.and_eq_true_iff.mp fixed
    obtain ⟨_, first, isObject⟩ := object.stacked tellable telling.1 fixedObject
    obtain ⟨second, -⟩ := brings_name tellable telling.2.2.1
    obtain ⟨_, third, isValue⟩ := value.stacked tellable telling.2.2.2.2 fixedValue
    refine ((first.append second).append third).result ".=" (by simp [Expr.reverseWords]) (by decide) fun stack => ?_
    simp [Expr.ofStack?, isObject, isValue, Expr.ungrouped, Expr.erase]
  | .element sequence index _, telling, fixed => by
    simp only [Expr.tokens, allOf_cons, allOf_append] at telling
    obtain ⟨fixedSequence, fixedIndex⟩ := Bool.and_eq_true_iff.mp fixed
    obtain ⟨_, first, isSequence⟩ := sequence.stacked tellable telling.1.1 fixedSequence
    obtain ⟨_, second, isIndex⟩ := index.stacked tellable telling.1.2.2 fixedIndex
    refine (first.append second).result "[]" rfl (by decide) fun stack => ?_
    simp [Expr.ofStack?, isSequence, isIndex, Expr.ungrouped, Expr.erase]
  | .setElement sequence index value _, telling, fixed => by
    simp only [Expr.tokens, allOf_cons, allOf_append] at telling
    simp only [Expr.hasFixedArity, Bool.and_eq_true] at fixed
    obtain ⟨_, first, isSequence⟩ := sequence.stacked tellable telling.1.1 fixed.1.1
    obtain ⟨_, second, isIndex⟩ := index.stacked tellable telling.1.2.2 fixed.1.2
    obtain ⟨_, third, isValue⟩ := value.stacked tellable telling.2.2.2 fixed.2
    refine ((first.append second).append third).result "[]=" rfl (by decide) fun stack => ?_
    simp [Expr.ofStack?, isSequence, isIndex, isValue, Expr.ungrouped, Expr.erase]

/-! ### Forms that are the same -/

theorem Brings.text_list (brings : Brings numbers words operands) :
    (Form.list (words.map Form.ofWord)).text = "(" ++ " ".intercalate words ++ ")" := by
  have texts : (words.map Form.ofWord).map Form.text = words := by
    rw [List.map_map]
    exact (List.map_congr_left fun word member => (brings.legible word member).2).trans (List.map_id _)
  rw [Form.text, Form.textAll_eq, texts]

/-- Words that can be told from what is around them can be told in a row. -/
theorem Brings.words_same (brings : Brings numbers words operands) (brings' : Brings numbers others above)
    (same : " ".intercalate words = " ".intercalate others) : words.map Form.ofWord = others.map Form.ofWord := by
  have legible {operands : List Operand} {words : List String} (brings : Brings numbers words operands) :
      (Form.list (words.map Form.ofWord)).Legible :=
    Form.legibleAll_iff.mpr <| List.forall_mem_map.mpr fun word member => (brings.legible word member).1
  have text : (Form.list (words.map Form.ofWord)).text.toList ++ [] =
      (Form.list (others.map Form.ofWord)).text.toList ++ [] := by
    rw [brings.text_list, brings'.text_list, same]
  have ended : Parted [] := fun _ head => nomatch head
  exact Form.list.inj (Form.unique (legible brings) (legible brings') ended ended text).1

/-- Two expressions of fixed arities have the same reverse Polish form just if they are the same but for their
groups. -/
theorem Expr.reversePolish_eq_iff (tellable : Tellable numbers) {e e' : Expr}
    (telling : AllOf (Telling numbers) e.tokens) (telling' : AllOf (Telling numbers) e'.tokens)
    (fixed : e.hasFixedArity) (fixed' : e'.hasFixedArity) :
    e.reversePolish = e'.reversePolish ↔ e.ungrouped.erase = e'.ungrouped.erase := by
  obtain ⟨operand, brings, is⟩ := e.stacked tellable telling fixed
  obtain ⟨operand', brings', is'⟩ := e'.stacked tellable telling' fixed'
  constructor
  · intro same
    have left := brings.stacked []
    rw [brings.words_same brings' same, brings'.stacked []] at left
    obtain rfl := List.singleton_inj.mp left
    exact Option.some.inj (is.symm.trans is')
  · intro same
    rw [Expr.reversePolish, Expr.reversePolish, ← e.reverseWords_ungrouped, same, e'.reverseWords_ungrouped]

/-! ### Expressions of texts -/

/-- The numbers among some tokens. -/
def numbersAmong (ts : List Token) : List Float :=
  ts.filterMap fun
    | .number x => some x
    | _ => none

theorem mem_numbersAmong {ts : List Token} {x : Float} : x ∈ numbersAmong ts ↔ .number x ∈ ts := by
  unfold numbersAmong
  rw [List.mem_filterMap]
  constructor
  · rintro ⟨t, member, found⟩
    split at found
    · obtain rfl := Option.some.inj found
      exact member
    · cases found
  · exact fun member => ⟨.number x, member, rfl⟩

/-- The tokens of each expression that is read from a text are spelled as lexemes, whatever else is in the text. -/
theorem parts_lexemes {nextId : Nat} {source : String} {e : Expr}
    (read : e ∈ Stmt.partsAll (parseSource nextId source).program) :
    AllOf (fun t => ∃ text, Lexeme text t) e.tokens := by
  obtain ⟨ended, lexemes⟩ := scan_words source
  have common : Token.Common fun t => ∃ text, Lexeme text t :=
    ⟨fun m => ⟨_, .mark m⟩, fun k => ⟨_, .keyword k⟩⟩
  refine Stmt.all_madeOf _ (parse_draws common fun l member inside => ?_) e read
  have listed : l.token ∈ (scan source).words ++ [.endOfInput] := ended ▸ List.mem_map_of_mem member
  rcases List.mem_append.mp listed with word | last
  · exact lexemes _ word
  · exact absurd (List.mem_singleton.mp last) inside

/-- Two expressions that are read from texts, and that hold no call, no array and no infinite number, have the same
reverse Polish form just if they are the same, ids and lines aside, once the groups are taken out. The numerals of
the numbers in them are taken to tell those numbers apart. -/
theorem reversePolish_identifies {nextId nextId' : Nat} {source source' : String} {e e' : Expr}
    (read : e ∈ Stmt.partsAll (parseSource nextId source).program)
    (read' : e' ∈ Stmt.partsAll (parseSource nextId' source').program)
    (fixed : e.hasFixedArity) (fixed' : e'.hasFixedArity)
    (finite : ∀ x ∈ numbersAmong (e.tokens ++ e'.tokens), Number.infinite x = false)
    (apart : let numbers := numbersAmong (e.tokens ++ e'.tokens)
      ∀ x ∈ numbers, ∀ y ∈ numbers, Number.text x = Number.text y → x = y) :
    e.reversePolish = e'.reversePolish ↔ e.ungrouped.erase = e'.ungrouped.erase := by
  have lexemes : AllOf (fun t => ∃ text, Lexeme text t) (e.tokens ++ e'.tokens) :=
    allOf_append.mpr ⟨parts_lexemes read, parts_lexemes read'⟩
  have tellable : Tellable (numbersAmong (e.tokens ++ e'.tokens)) := by
    refine ⟨fun x member => ⟨?_, finite x member⟩, apart⟩
    obtain ⟨text, lexeme⟩ := lexemes _ (mem_numbersAmong.mp member)
    exact magnitude_of_lexeme lexeme
  have telling : AllOf (Telling (numbersAmong (e.tokens ++ e'.tokens))) (e.tokens ++ e'.tokens) :=
    fun t member => ⟨lexemes t member, fun x same => mem_numbersAmong.mpr (same ▸ member)⟩
  obtain ⟨first, second⟩ := allOf_append.mp telling
  exact Expr.reversePolish_eq_iff tellable first second fixed fixed'

theorem reversePolish_identifies_groups :
    let source := "print -a.b - (1 - super.a ? this : \"= )\");"
    let source' := "print (-(a).b) - ((1 - super.a) ? (this) : (\"= )\"));"
    let e := (Stmt.partsAll (parseSource 0 source).program).headD (.literal .nil)
    let e' := (Stmt.partsAll (parseSource 7 source').program).headD (.literal .nil)
    e.reversePolish = "a b . ~ 1 a super - this \"= )\" ? -" ∧ e'.reversePolish = e.reversePolish ∧
    e.ungrouped.erase = e'.ungrouped.erase := by
  intro source source' e e'
  have polish : e.reversePolish = "a b . ~ 1 a super - this \"= )\" ? -" := by decide +kernel
  have polish' : e'.reversePolish = e.reversePolish := by decide +kernel
  have first (es : List Expr) (some : es.length ≠ 0) : es.headD (.literal .nil) ∈ es := by
    cases es with
    | nil => exact absurd rfl some
    | cons e es => exact List.mem_cons_self
  have read : e ∈ Stmt.partsAll (parseSource 0 source).program := first _ (by decide +kernel)
  have read' : e' ∈ Stmt.partsAll (parseSource 7 source').program := first _ (by decide +kernel)
  have fixed : e.hasFixedArity ∧ e'.hasFixedArity := by decide +kernel
  have numbers : numbersAmong (e.tokens ++ e'.tokens) = [1, 1] := by decide +kernel
  refine ⟨polish, polish', (reversePolish_identifies read read' fixed.1 fixed.2 ?_ ?_).mp polish'.symm⟩
  · rw [numbers]
    decide +kernel
  · intro listed x first y second _
    simp only [listed, numbers, List.mem_cons, List.not_mem_nil, or_false, or_self] at first second
    rw [first, second]

end Lox
