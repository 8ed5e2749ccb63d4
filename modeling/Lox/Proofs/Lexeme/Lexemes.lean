import Mathlib.Data.List.Basic
import Lox.Lexeme.Segment

/-!
The lexemes and comments of the language, by their spelling alone. What a lexeme starts with says of which sort
it is, and a spelling is that of one token only. Block comments are enclosed in their marks, one inside the
other; `commentRest?` finds the closing mark of the outermost.
-/

namespace Lox

variable {c : Char} {cs rest text : List Char} {token : Token}

/-- What stands behind the opening mark of a block comment, through its closing mark. The marks are read from
the left, and no character is in two of them. -/
inductive Enclosed : List Char → Prop
  | closed : Enclosed ['*', '/']
  | char {c : Char} {cs : List Char} (opens : ¬ ['/', '*'] <+: c :: cs) (closes : ¬ ['*', '/'] <+: c :: cs)
      (behind : Enclosed cs) : Enclosed (c :: cs)
  | nested {inner behind : List Char} (comment : Enclosed inner) (more : Enclosed behind) :
      Enclosed ('/' :: '*' :: (inner ++ behind))

/-- The spellings of the tokens that a text can have. -/
inductive Lexeme : List Char → Token → Prop
  | mark (m : Mark) : Lexeme m.spelling.toList (.mark m)
  | keyword (k : Keyword) : Lexeme k.spelling.toList (.keyword k)
  | identifier {c : Char} {cs : List Char} (start : isWordStart c) (parts : ∀ d ∈ cs, isWordPart d)
      (free : ∀ k : Keyword, k.spelling.toList ≠ c :: cs) : Lexeme (c :: cs) (.identifier (.ofList (c :: cs)))
  | whole {digits : List Char} (some : digits ≠ []) (all : ∀ d ∈ digits, d.isDigit) :
      Lexeme digits (.number (Number.ofDigits digits []))
  | decimal {whole fraction : List Char} (some : whole ≠ []) (all : ∀ d ∈ whole, d.isDigit)
      (someBehind : fraction ≠ []) (allBehind : ∀ d ∈ fraction, d.isDigit) :
      Lexeme (whole ++ '.' :: fraction) (.number (Number.ofDigits whole fraction))
  | string {contents : List Char} (raw : '"' ∉ contents) :
      Lexeme ('"' :: (contents ++ ['"'])) (.string (.ofList contents))

/-! ### Block comments -/

theorem Enclosed.ne_nil (enclosed : Enclosed cs) : cs ≠ [] := by
  cases enclosed <;> exact List.cons_ne_nil _ _

theorem commentRest?_char (opens : ¬ ['/', '*'] <+: c :: cs) (closes : ¬ ['*', '/'] <+: c :: cs) (depth : Nat) :
    commentRest? depth (c :: cs) = (commentRest? depth cs).map (c :: ·) := by
  rw [commentRest?]
  · rintro cs rfl rfl
    exact opens ⟨cs, rfl⟩
  · rintro cs - rfl rfl
    exact closes ⟨cs, rfl⟩
  · rintro depth cs - rfl rfl
    exact closes ⟨cs, rfl⟩

/-- A mark at the front of a text is at the front of what the text starts with, if that is long enough. -/
theorem mark_append {first second : Char} (some : cs ≠ []) (rest : List Char) :
    [first, second] <+: c :: (cs ++ rest) ↔ [first, second] <+: c :: cs := by
  cases cs with
  | nil => exact absurd rfl some
  | cons d cs => simp

/-- What closes a comment is taken for it, and the comments around that one are looked for behind it. -/
theorem Enclosed.taken (enclosed : Enclosed cs) (rest : List Char) :
    commentRest? 0 (cs ++ rest) = some cs ∧
      ∀ depth, commentRest? (depth + 1) (cs ++ rest) = (commentRest? depth rest).map (cs ++ ·) := by
  induction enclosed generalizing rest with
  | closed =>
    refine ⟨?_, fun depth => ?_⟩
    · rw [List.cons_append, List.cons_append, commentRest?]
    · rw [List.cons_append, List.cons_append, commentRest?]
      rfl
  | char opens closes behind ih =>
    obtain ⟨outermost, inner⟩ := ih rest
    have step := commentRest?_char (mt (mark_append behind.ne_nil rest).mp opens)
      (mt (mark_append behind.ne_nil rest).mp closes)
    refine ⟨?_, fun depth => ?_⟩
    · rw [List.cons_append, step, outermost]
      rfl
    · rw [List.cons_append, step, inner, Option.map_map]
      rfl
  | @nested comment behind _ _ ihComment ihBehind =>
    have step : ∀ depth, commentRest? depth ('/' :: '*' :: (comment ++ behind) ++ rest) =
        (commentRest? depth (behind ++ rest)).map ('/' :: '*' :: comment ++ ·) := by
      intro depth
      rw [List.cons_append, List.cons_append, commentRest?, List.append_assoc,
        (ihComment (behind ++ rest)).2 depth, Option.map_map]
      rfl
    obtain ⟨outermost, inner⟩ := ihBehind rest
    refine ⟨?_, fun depth => ?_⟩
    · rw [step, outermost]
      rfl
    · rw [step, inner, Option.map_map]
      congr 1
      funext others
      simp

/-- The ends of some comments, one behind the other. -/
def Encloses : (comments : Nat) → List Char → Prop
  | 0, cs => cs = []
  | comments + 1, cs => ∃ first others, cs = first ++ others ∧ Enclosed first ∧ Encloses comments others

theorem encloses_of_commentRest? {depth : Nat} {body : List Char} (found : commentRest? depth cs = some body) :
    Encloses (depth + 1) body := by
  fun_induction commentRest? depth cs generalizing body with
  | case1 depth cs ih =>
    obtain ⟨behind, inside, rfl⟩ := Option.map_eq_some_iff.mp found
    obtain ⟨inner, _, rfl, comment, more, others, rfl, enclosed, ends⟩ := ih inside
    exact ⟨'/' :: '*' :: (inner ++ more), others, by simp, .nested comment enclosed, ends⟩
  | case2 cs =>
    obtain rfl : ['*', '/'] = body := Option.some.inj found
    exact ⟨_, [], rfl, .closed, rfl⟩
  | case3 depth cs ih =>
    obtain ⟨behind, outside, rfl⟩ := Option.map_eq_some_iff.mp found
    exact ⟨['*', '/'], behind, rfl, .closed, ih outside⟩
  | case4 depth c cs opens closes₀ closes ih =>
    obtain ⟨behind, found', rfl⟩ := Option.map_eq_some_iff.mp found
    obtain ⟨first, others, rfl, enclosed, ends⟩ := ih found'
    obtain ⟨rest, rfl⟩ := commentRest?_append found'
    refine ⟨c :: first, others, rfl, .char ?_ ?_ enclosed, ends⟩
    · rintro ⟨tail, same⟩
      obtain ⟨rfl, rfl⟩ := List.cons.inj same
      exact opens _ rfl rfl
    · rintro ⟨tail, same⟩
      obtain ⟨rfl, rfl⟩ := List.cons.inj same
      cases depth with
      | zero => exact closes₀ _ rfl rfl rfl
      | succ depth => exact closes depth _ rfl rfl rfl
  | case5 => cases found

/-- What is taken for the rest of a block comment is the one text at the front that closes it. -/
theorem commentRest?_eq_some_iff {body : List Char} :
    commentRest? 0 cs = some body ↔ Enclosed body ∧ body <+: cs := by
  constructor
  · intro found
    obtain ⟨first, _, rfl, enclosed, rfl⟩ := encloses_of_commentRest? found
    have front := commentRest?_append found
    rw [List.append_nil] at front ⊢
    exact ⟨enclosed, front⟩
  · rintro ⟨enclosed, rest, rfl⟩
    exact (enclosed.taken rest).1

/-! ### What a lexeme starts with -/

theorem isWordStart_of_isDigit (digit : c.isDigit) : isWordStart c = false := by
  have below : c.val ≤ '9'.val := of_decide_eq_true (Bool.and_eq_true_iff.mp digit).2
  rw [Bool.eq_false_iff]
  intro word
  rcases Bool.or_eq_true_iff.mp word with letter | underscore
  · rcases Bool.or_eq_true_iff.mp letter with upper | lower
    · have above : 'A'.val ≤ c.val := (of_decide_eq_true upper).1
      exact absurd (UInt32.le_trans above below) (by decide)
    · have above : 'a'.val ≤ c.val := of_decide_eq_true (Bool.and_eq_true_iff.mp lower).1
      exact absurd (UInt32.le_trans above below) (by decide)
  · obtain rfl := of_decide_eq_true underscore
    exact absurd digit (by decide)

theorem Mark.sort_ofChar? {m : Mark} (known : Mark.ofChar? c = some m) :
    isBlank c = false ∧ c ≠ '"' ∧ c.isDigit = false ∧ isWordStart c = false := by
  unfold Mark.ofChar? at known
  split at known
  all_goals first | decide | cases known

theorem Mark.spelling_cases (m : Mark) :
    ∃ c first, Mark.ofChar? c = some first ∧
      (m.spelling.toList = [c] ∧ first = m ∨ m.spelling.toList = [c, '='] ∧ first.withEqual? = some m) := by
  cases m with
  | equalEqual => exact ⟨'=', .equal, rfl, .inr ⟨rfl, rfl⟩⟩
  | bangEqual => exact ⟨'!', .bang, rfl, .inr ⟨rfl, rfl⟩⟩
  | lessEqual => exact ⟨'<', .less, rfl, .inr ⟨rfl, rfl⟩⟩
  | greaterEqual => exact ⟨'>', .greater, rfl, .inr ⟨rfl, rfl⟩⟩
  | _ => exact ⟨_, _, by rfl, .inl ⟨rfl, rfl⟩⟩

theorem Mark.spelling_ofChar? {m : Mark} (known : Mark.ofChar? c = some m) : m.spelling.toList = [c] := by
  unfold Mark.ofChar? at known
  split at known
  all_goals first | (obtain rfl := Option.some.inj known; rfl) | cases known

theorem Mark.spelling_withEqual? {first m : Mark} (both : first.withEqual? = some m) :
    m.spelling.toList = first.spelling.toList ++ ['='] := by
  cases first <;> cases both <;> rfl

theorem Keyword.spelling_word (k : Keyword) :
    ∃ c cs, k.spelling.toList = c :: cs ∧ isWordStart c ∧ ∀ d ∈ cs, isWordPart d := by
  cases k <;> exact ⟨_, _, by rfl, by decide, List.all_eq_true.mp (by decide)⟩

/-- Lexemes by their first character. -/
inductive LexemeFrom : Char → List Char → Token → Prop
  | word {c : Char} {cs : List Char} (start : isWordStart c) (parts : ∀ d ∈ cs, isWordPart d) :
      LexemeFrom c cs (.ofWord (.ofList (c :: cs)))
  | whole {c : Char} {cs : List Char} (digit : c.isDigit) (all : ∀ d ∈ cs, d.isDigit) :
      LexemeFrom c cs (.number (Number.ofDigits (c :: cs) []))
  | decimal {c : Char} {whole fraction : List Char} (digit : c.isDigit) (all : ∀ d ∈ whole, d.isDigit)
      (someBehind : fraction ≠ []) (allBehind : ∀ d ∈ fraction, d.isDigit) :
      LexemeFrom c (whole ++ '.' :: fraction) (.number (Number.ofDigits (c :: whole) fraction))
  | string {contents : List Char} (raw : '"' ∉ contents) :
      LexemeFrom '"' (contents ++ ['"']) (.string (.ofList contents))
  | single {c : Char} {m : Mark} (known : Mark.ofChar? c = some m) : LexemeFrom c [] (.mark m)
  | double {c : Char} {first m : Mark} (known : Mark.ofChar? c = some first) (both : first.withEqual? = some m) :
      LexemeFrom c ['='] (.mark m)

theorem Keyword.ofSpelling?_eq_none (free : ∀ k : Keyword, k.spelling.toList ≠ text) :
    Keyword.ofSpelling? (.ofList text) = none := by
  cases known : Keyword.ofSpelling? (.ofList text) with
  | none => rfl
  | some k =>
    refine absurd ?_ (free k)
    rw [← Keyword.ofSpelling?_eq_some_iff.mp known, String.toList_ofList]

theorem Lexeme.from (lexeme : Lexeme text token) : ∃ c cs, text = c :: cs ∧ LexemeFrom c cs token := by
  cases lexeme with
  | mark m =>
    obtain ⟨c, first, known, ⟨spelling, rfl⟩ | ⟨spelling, both⟩⟩ := m.spelling_cases
    · exact ⟨c, [], spelling, .single known⟩
    · exact ⟨c, ['='], spelling, .double known both⟩
  | keyword k =>
    obtain ⟨c, cs, spelling, start, parts⟩ := k.spelling_word
    have token : Token.ofWord (.ofList (c :: cs)) = .keyword k := by
      rw [← spelling, String.ofList_toList, Token.ofWord, k.ofSpelling?_spelling]
    exact ⟨c, cs, spelling, token ▸ .word start parts⟩
  | @identifier c cs start parts free =>
    have token : Token.ofWord (.ofList (c :: cs)) = .identifier (.ofList (c :: cs)) := by
      rw [Token.ofWord, Keyword.ofSpelling?_eq_none free]
    exact ⟨c, cs, rfl, token ▸ .word start parts⟩
  | whole some all =>
    obtain ⟨c, cs, rfl⟩ := List.exists_cons_of_ne_nil some
    exact ⟨c, cs, rfl, .whole (all c List.mem_cons_self) fun d member => all d (List.mem_cons_of_mem _ member)⟩
  | @decimal _ fraction some all someBehind allBehind =>
    obtain ⟨c, cs, rfl⟩ := List.exists_cons_of_ne_nil some
    exact ⟨c, cs ++ '.' :: fraction, rfl, .decimal (all c List.mem_cons_self)
      (fun d member => all d (List.mem_cons_of_mem _ member)) someBehind allBehind⟩
  | @string contents raw => exact ⟨'"', contents ++ ['"'], rfl, .string raw⟩

theorem Lexeme.from_cons (lexeme : Lexeme (c :: cs) token) : LexemeFrom c cs token := by
  obtain ⟨d, ds, same, sorted⟩ := lexeme.from
  obtain ⟨rfl, rfl⟩ := List.cons.inj same
  exact sorted

theorem LexemeFrom.lexeme (sorted : LexemeFrom c cs token) : Lexeme (c :: cs) token := by
  cases sorted with
  | word start parts =>
    unfold Token.ofWord
    split
    · next k known =>
      have spelling := congrArg String.toList (Keyword.ofSpelling?_eq_some_iff.mp known)
      rw [String.toList_ofList] at spelling
      exact spelling ▸ .keyword k
    · next unknown =>
      refine .identifier start parts fun k spelling => ?_
      rw [← spelling, String.ofList_toList, k.ofSpelling?_spelling] at unknown
      cases unknown
  | whole digit all => exact .whole (List.cons_ne_nil _ _) (List.forall_mem_cons.mpr ⟨digit, all⟩)
  | @decimal _ whole fraction digit all someBehind allBehind =>
    have all : ∀ d ∈ c :: whole, d.isDigit := List.forall_mem_cons.mpr ⟨digit, all⟩
    exact .decimal (List.cons_ne_nil c whole) all someBehind allBehind
  | string raw => exact .string raw
  | single known => exact Mark.spelling_ofChar? known ▸ .mark _
  | @double _ _ m known both =>
    have spelling : m.spelling.toList = [c, '='] := by
      rw [Mark.spelling_withEqual? both, Mark.spelling_ofChar? known]
      rfl
    exact spelling ▸ .mark m

end Lox
