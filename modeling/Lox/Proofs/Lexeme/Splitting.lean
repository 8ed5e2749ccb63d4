import Mathlib.Data.List.TakeWhile
import Lox.Proofs.Lexeme.Lexemes
import Lox.Lexeme.Scan

/-!
A text splits into segments in one way only, and the tokens and errors of its scan are those of the segments, on
the lines on which these end. What may stand as a segment in front of a text is said without the reader: a lexeme
is the longest that there is, and comments come before marks.
-/

namespace Lox

/-- A comment starts a text. -/
def CommentAhead (text : List Char) : Prop :=
  ['/', '/'] <+: text ∨ ['/', '*'] <+: text

/-- No lexeme that starts a text is longer. -/
def Longest (lexeme text : List Char) : Prop :=
  ∀ other token, Lexeme other token → other <+: text → other.length ≤ lexeme.length

/-- What a segment is in front of the rest of a text. -/
inductive Segment.Fits : Segment → (rest : List Char) → Prop
  | blank {c : Char} {rest : List Char} (blank : isBlank c) : Fits ⟨.blank, [c]⟩ rest
  | lineComment {cs rest : List Char} (line : '\n' ∉ cs) (ended : rest = [] ∨ ∃ below, rest = '\n' :: below) :
      Fits ⟨.lineComment, '/' :: '/' :: cs⟩ rest
  | blockComment {cs rest : List Char} (enclosed : Enclosed cs) : Fits ⟨.blockComment, '/' :: '*' :: cs⟩ rest
  | lexeme {text rest : List Char} {token : Token} (lexeme : Lexeme text token)
      (noComment : ¬ CommentAhead (text ++ rest)) (longest : Longest text (text ++ rest)) :
      Fits ⟨.lexeme token, text⟩ rest
  -- A slash is a lexeme by itself, so nothing that may start a comment is left over here.
  | stray {c : Char} {rest : List Char} (noBlank : isBlank c = false)
      (noLexeme : ∀ cs token, ¬ Lexeme (c :: cs) token) : Fits ⟨.stray c, [c]⟩ rest
  | openString {cs : List Char} (unclosed : '"' ∉ cs) : Fits ⟨.openString, '"' :: cs⟩ []
  | openComment {cs : List Char} (unclosed : ∀ body, Enclosed body → ¬ body <+: cs) :
      Fits ⟨.openComment, '/' :: '*' :: cs⟩ []

/-- A text is put together of segments, each of which fits in front of the rest. -/
inductive Splits : List Char → List Segment → Prop
  | nil : Splits [] []
  | cons {segment : Segment} {rest : List Char} {others : List Segment} (fits : segment.Fits rest)
      (more : Splits rest others) : Splits (segment.text ++ rest) (segment :: others)

/-- The token of a segment that ends on a line. -/
def SegmentKind.token? : SegmentKind → (line : Nat) → Option Located
  | .lexeme token, line => some ⟨token, line⟩
  | _, _ => none

/-- What is wrong with a segment that ends on a line. -/
def SegmentKind.error? : SegmentKind → (line : Nat) → Option Diagnostic
  | .stray c, line => some (.onLine line (.badCharacter c))
  | .openString, line => some (.onLine line .unterminatedString)
  | .openComment, line => some (.onLine line .unterminatedComment)
  | _, _ => none

/-- The line on which segments end that start on `line`. -/
def lineBehind (line : Nat) (segments : List Segment) : Nat :=
  line + (segments.flatMap Segment.text).count '\n'

/-- What segments that start on `line` come to, each on the line on which it ends. -/
def located {α : Type} (read : SegmentKind → Nat → Option α) (line : Nat) (segments : List Segment) : List α :=
  (segments.mapIdx fun i segment => read segment.kind (lineBehind line (segments.take (i + 1)))).filterMap id

variable {c : Char} {cs rest text : List Char} {token : Token} {segment : Segment}

theorem CommentAhead.slash (ahead : CommentAhead (c :: cs)) : c = '/' := by
  rcases ahead with ⟨_, same⟩ | ⟨_, same⟩ <;> exact (List.cons.inj same).1.symm

/-! ### The first segment by the first character -/

theorem first_slash : Segment.first '/' cs = slashSegment cs := rfl

theorem first_quote : Segment.first '"' cs = stringSegment cs := rfl

/-- A character of a sort to which no blank, no slash and no quote belongs is none of them. -/
theorem plain_of_sort {p : Char → Bool} (sort : p c)
    (others : [' ', '\t', '\r', '\n', '/', '"'].all (! p ·)) : ¬ isBlank c ∧ c ≠ '/' ∧ c ≠ '"' := by
  have apart : c ∉ [' ', '\t', '\r', '\n', '/', '"'] := by
    intro listed
    have no := List.all_eq_true.mp others c listed
    rw [sort] at no
    cases no
  simpa [isBlank, and_assoc] using apart

theorem first_digit (digit : c.isDigit) (cs : List Char) : Segment.first c cs = numberSegment c cs := by
  obtain ⟨noBlank, noSlash, noQuote⟩ := plain_of_sort digit (by decide)
  rw [Segment.first, if_neg noBlank, if_neg noSlash, if_neg noQuote, if_pos digit]

theorem first_word (start : isWordStart c) (cs : List Char) : Segment.first c cs = wordSegment c cs := by
  obtain ⟨noBlank, noSlash, noQuote⟩ := plain_of_sort start (by decide)
  have noDigit : ¬ c.isDigit := fun digit => absurd start (by rw [isWordStart_of_isDigit digit]; decide)
  rw [Segment.first, if_neg noBlank, if_neg noSlash, if_neg noQuote, if_neg noDigit, if_pos start]

theorem Mark.noSlash {first m : Mark} (known : Mark.ofChar? c = some first) (both : first.withEqual? = some m) :
    c ≠ '/' := by
  rintro rfl
  obtain rfl := Option.some.inj known
  cases both

theorem first_mark {m : Mark} (known : Mark.ofChar? c = some m) (noSlash : c ≠ '/') (cs : List Char) :
    Segment.first c cs = markSegment c m cs := by
  obtain ⟨blank, noQuote, digit, word⟩ := Mark.sort_ofChar? known
  simp only [Segment.first, blank, noSlash, noQuote, digit, word, known, Bool.false_eq_true, if_false]

/-! ### A lexeme in front -/

section Runs

variable {p : Char → Bool}

theorem length_le_takeWhile (all : ∀ d ∈ cs, p d) (rest : List Char) : cs.length ≤ ((cs ++ rest).takeWhile p).length := by
  rw [List.takeWhile_append_of_pos all, List.length_append]
  exact Nat.le_add_right _ _

/-- A run of characters ends in front of the first one that cannot go on with it. -/
theorem run_ends (all : ∀ d ∈ cs, p d) (stops : p c = false) (rest : List Char) :
    (cs ++ c :: rest).takeWhile p = cs ∧ (cs ++ c :: rest).dropWhile p = c :: rest := by
  have noMore : ¬ p c := by rw [stops]; decide
  rw [List.takeWhile_append_of_pos all, List.dropWhile_append_of_pos all, List.takeWhile_cons_of_neg noMore,
    List.dropWhile_cons_of_neg noMore, List.append_nil]
  exact ⟨rfl, rfl⟩

theorem bne_of_notMem (absent : c ∉ cs) : ∀ d ∈ cs, d != c :=
  fun _ member => bne_iff_ne.mpr fun same => absent (same ▸ member)

end Runs

theorem numberSegment_decimal {whole digits : List Char} (all : ∀ d ∈ whole, d.isDigit) (some : digits ≠ [])
    (allBehind : ∀ d ∈ digits, d.isDigit) (c : Char) (rest : List Char) :
    numberSegment c (whole ++ '.' :: (digits ++ rest)) =
      let fraction := digits ++ rest.takeWhile Char.isDigit
      ⟨.lexeme (.number (Number.ofDigits (c :: whole) fraction)), c :: (whole ++ '.' :: fraction)⟩ := by
  obtain ⟨taken, dropped⟩ := run_ends all (rfl : Char.isDigit '.' = false) (digits ++ rest)
  obtain ⟨d, ds, rfl⟩ := List.exists_cons_of_ne_nil some
  simp only [numberSegment, taken, dropped, fraction, List.takeWhile_append_of_pos allBehind]
  rfl

theorem stringSegment_closed {contents : List Char} (raw : '"' ∉ contents) (rest : List Char) :
    stringSegment (contents ++ '"' :: rest) =
      ⟨.lexeme (.string (.ofList contents)), '"' :: (contents ++ ['"'])⟩ := by
  obtain ⟨taken, dropped⟩ := run_ends (bne_of_notMem raw) (bne_self_eq_false '"') rest
  simp only [stringSegment, taken, dropped]
  rfl

theorem stringSegment_open (unclosed : '"' ∉ cs) : stringSegment cs = ⟨.openString, '"' :: cs⟩ := by
  simp only [stringSegment, List.dropWhile_eq_nil_iff.mpr (bne_of_notMem unclosed)]

/-- A lexeme by itself is one segment. -/
theorem first_of_lexeme (lexeme : Lexeme (c :: cs) token) : Segment.first c cs = ⟨.lexeme token, c :: cs⟩ := by
  cases lexeme.from_cons with
  | word start parts =>
    rw [first_word start, wordSegment, List.takeWhile_eq_self_iff.mpr parts]
  | whole digit all =>
    rw [first_digit digit]
    simp only [numberSegment, List.takeWhile_eq_self_iff.mpr all, List.dropWhile_eq_nil_iff.mpr all, fraction]
  | @decimal _ whole digits digit all someBehind allBehind =>
    have number := numberSegment_decimal all someBehind allBehind c []
    rw [List.append_nil, List.takeWhile_nil, List.append_nil] at number
    rw [first_digit digit, number]
  | string raw =>
    rw [first_quote, stringSegment_closed raw]
  | @single _ m known =>
    by_cases slash : c = '/'
    · subst slash
      obtain rfl := Option.some.inj known
      rfl
    · rw [first_mark known slash]
      rfl
  | @double _ first m known both =>
    rw [first_mark known (Mark.noSlash known both)]
    simp only [markSegment, both]

theorem Lexeme.token_unique {token' : Token} (lexeme : Lexeme text token) (lexeme' : Lexeme text token') :
    token = token' := by
  obtain ⟨c, cs, rfl, _⟩ := lexeme.from
  have same := (first_of_lexeme lexeme).symm.trans (first_of_lexeme lexeme')
  exact SegmentKind.lexeme.inj (congrArg Segment.kind same)

/-- No lexeme in front of a text is longer than the first segment. -/
theorem first_longest : Longest (Segment.first c cs).text (c :: cs) := by
  rintro other token lexeme ⟨rest, same⟩
  obtain ⟨d, ds, rfl, sorted⟩ := lexeme.from
  rw [List.cons_append] at same
  obtain ⟨rfl, rfl⟩ := List.cons.inj same
  cases sorted with
  | word start parts =>
    rw [first_word start]
    exact Nat.succ_le_succ (length_le_takeWhile parts rest)
  | whole digit all =>
    have long := Nat.succ_le_succ (length_le_takeWhile all rest)
    rw [first_digit digit]
    unfold numberSegment
    split
    · exact long
    · refine Nat.le_trans long ?_
      simp
  | @decimal _ whole digits digit all someBehind allBehind =>
    have text : whole ++ '.' :: digits ++ rest = whole ++ '.' :: (digits ++ rest) := by simp
    rw [text, first_digit digit, numberSegment_decimal all someBehind allBehind]
    simp
  | @string contents raw =>
    have text : contents ++ ['"'] ++ rest = contents ++ '"' :: rest := by simp
    rw [text, first_quote, stringSegment_closed raw]
  | single known =>
    exact List.length_pos_of_ne_nil (Segment.first_text_ne_nil _ _)
  | @double _ first m known both =>
    rw [first_mark known (Mark.noSlash known both), List.cons_append]
    simp only [markSegment, both]
    exact Nat.le_refl _

/-! ### The first segment fits -/

def Segment.Spelled (segment : Segment) : Prop :=
  ∃ token, segment.kind = .lexeme token ∧ Lexeme segment.text token

theorem fraction_digits : ∀ d ∈ fraction cs, d.isDigit := by
  unfold fraction
  split
  · exact fun d member => List.mem_takeWhile_imp member
  · exact fun d member => absurd member List.not_mem_nil

theorem numberSegment_spelled (digit : c.isDigit) : (numberSegment c cs).Spelled := by
  have all : ∀ d ∈ cs.takeWhile Char.isDigit, d.isDigit := fun d member => List.mem_takeWhile_imp member
  unfold numberSegment
  split
  · exact ⟨_, rfl, (LexemeFrom.whole digit all).lexeme⟩
  · next some => exact ⟨_, rfl, (LexemeFrom.decimal digit all some fraction_digits).lexeme⟩

theorem wordSegment_spelled (start : isWordStart c) : (wordSegment c cs).Spelled :=
  ⟨_, rfl, (LexemeFrom.word start fun _ member => List.mem_takeWhile_imp member).lexeme⟩

theorem markSegment_spelled {m : Mark} (known : Mark.ofChar? c = some m) : (markSegment c m cs).Spelled := by
  unfold markSegment
  split
  · split
    · next both => exact ⟨_, rfl, (LexemeFrom.double known both).lexeme⟩
    · exact ⟨_, rfl, (LexemeFrom.single known).lexeme⟩
  · exact ⟨_, rfl, (LexemeFrom.single known).lexeme⟩

theorem Segment.Spelled.fits (spelled : segment.Spelled) (noComment : ¬ CommentAhead (segment.text ++ rest))
    (longest : Longest segment.text (segment.text ++ rest)) : segment.Fits rest := by
  obtain ⟨kind, text⟩ := segment
  obtain ⟨token, rfl, lexeme⟩ := spelled
  exact .lexeme lexeme noComment longest

theorem lineComment_fits (whole : cs.takeWhile (· != '\n') ++ rest = cs) :
    Segment.Fits ⟨.lineComment, '/' :: '/' :: cs.takeWhile (· != '\n')⟩ rest := by
  have dropped : rest = cs.dropWhile (· != '\n') := by
    refine List.append_cancel_left (whole.trans ?_)
    exact List.takeWhile_append_dropWhile.symm
  refine .lineComment (fun member => absurd (List.mem_takeWhile_imp member) (by decide)) ?_
  cases rest with
  | nil => exact Or.inl rfl
  | cons d below =>
    have stops := List.head?_dropWhile_not (· != '\n') cs
    rw [← dropped] at stops
    have lineFeed : d = '\n' := by simpa using stops
    exact Or.inr ⟨below, by rw [lineFeed]⟩

theorem slashSegment_fits (whole : (slashSegment cs).text ++ rest = '/' :: cs) : (slashSegment cs).Fits rest := by
  have longest : Longest (slashSegment cs).text ('/' :: cs) := first_longest
  revert longest whole
  unfold slashSegment
  split
  · next cs =>
    intro whole _
    exact lineComment_fits (List.cons.inj (List.cons.inj whole).2).2
  · next cs =>
    split
    · next body closed => exact fun _ _ => .blockComment (commentRest?_eq_some_iff.mp closed).1
    · next unclosed =>
      intro whole _
      obtain rfl : rest = [] := by simpa using whole
      refine .openComment fun body enclosed front => ?_
      rw [commentRest?_eq_some_iff.mpr ⟨enclosed, front⟩] at unclosed
      cases unclosed
  · next noLine noBlock =>
    intro whole longest
    refine .lexeme (.mark .slash) ?_ (whole ▸ longest)
    rw [whole]
    rintro (⟨behind, same⟩ | ⟨behind, same⟩)
    · exact noLine behind (List.cons.inj same).2.symm
    · exact noBlock behind (List.cons.inj same).2.symm

theorem stringSegment_fits (whole : (stringSegment cs).text ++ rest = '"' :: cs) :
    (stringSegment cs).Fits rest := by
  by_cases quoted : '"' ∈ cs
  · have longest : Longest (stringSegment cs).text ('"' :: cs) := first_longest
    obtain ⟨contents, behind, rfl, raw⟩ := List.eq_append_cons_of_mem quoted
    rw [stringSegment_closed raw] at whole longest ⊢
    refine .lexeme (.string raw) (fun ahead => ?_) (whole ▸ longest)
    rw [whole] at ahead
    exact absurd ahead.slash (by decide)
  · rw [stringSegment_open quoted] at whole ⊢
    obtain rfl : rest = [] := by simpa using whole
    exact .openString quoted

/-- What is taken from the front of a text fits in front of the rest. -/
theorem first_fits (whole : (Segment.first c cs).text ++ rest = c :: cs) : (Segment.first c cs).Fits rest := by
  by_cases slash : c = '/'
  · subst slash
    exact slashSegment_fits whole
  by_cases quote : c = '"'
  · subst quote
    exact stringSegment_fits whole
  have spelled (spelled : (Segment.first c cs).Spelled) : (Segment.first c cs).Fits rest := by
    refine spelled.fits (fun ahead => ?_) (whole ▸ first_longest)
    rw [whole] at ahead
    exact slash ahead.slash
  by_cases word : isWordStart c
  · exact spelled (first_word word cs ▸ wordSegment_spelled word)
  by_cases digit : c.isDigit
  · exact spelled (first_digit digit cs ▸ numberSegment_spelled digit)
  cases known : Mark.ofChar? c with
  | some m => exact spelled (first_mark known slash cs ▸ markSegment_spelled known)
  | none =>
    unfold Segment.first
    rw [if_neg slash, if_neg quote, if_neg digit, if_neg word, known]
    split
    · next blank => exact .blank blank
    · next noBlank =>
      refine .stray (Bool.eq_false_iff.mpr noBlank) fun cs token lexeme => ?_
      cases lexeme.from_cons with
      | word start _ => exact word start
      | whole start _ => exact digit start
      | decimal start _ _ _ => exact digit start
      | string _ => exact quote rfl
      | single start => cases known.symm.trans start
      | double start _ => cases known.symm.trans start

/-! ### Only the first segment fits -/

theorem stray_first (noBlank : isBlank c = false) (noLexeme : ∀ cs token, ¬ Lexeme (c :: cs) token) :
    Segment.first c cs = ⟨.stray c, [c]⟩ := by
  have noSlash : c ≠ '/' := by
    rintro rfl
    exact noLexeme _ _ (.mark .slash)
  have noQuote : c ≠ '"' := by
    rintro rfl
    exact noLexeme _ _ (LexemeFrom.string List.not_mem_nil).lexeme
  have noDigit : ¬ c.isDigit := fun digit => noLexeme _ _ (LexemeFrom.whole digit (List.forall_mem_nil _)).lexeme
  have noWord : ¬ isWordStart c := fun start => noLexeme _ _ (LexemeFrom.word start (List.forall_mem_nil _)).lexeme
  have unknown : Mark.ofChar? c = none := by
    cases known : Mark.ofChar? c with
    | none => rfl
    | some m => exact absurd (LexemeFrom.single known).lexeme (noLexeme _ _)
  have noBlank : ¬ isBlank c := Bool.eq_false_iff.mp noBlank
  rw [Segment.first, if_neg noBlank, if_neg noSlash, if_neg noQuote, if_neg noDigit, if_neg noWord, unknown]

/-- A lexeme that fits is what is taken: where no comment starts, only a lexeme starts as a lexeme does, and of
two that are the longest one is the other. -/
theorem lexeme_first (lexeme : Lexeme text token) (noComment : ¬ CommentAhead (text ++ rest))
    (longest : Longest text (text ++ rest)) (whole : text ++ rest = c :: cs) :
    Segment.first c cs = ⟨.lexeme token, text⟩ := by
  obtain ⟨rest', whole'⟩ := Segment.first_text c cs
  have fits : (Segment.first c cs).Fits rest' := first_fits whole'
  have longest' : Longest (Segment.first c cs).text (c :: cs) := first_longest
  rw [whole] at noComment longest
  revert fits longest' whole'
  generalize Segment.first c cs = segment
  intro whole' fits longest'
  obtain ⟨d, ds, rfl, -⟩ := lexeme.from
  obtain ⟨rfl, rfl⟩ := List.cons.inj whole
  cases fits with
  | blank blank =>
    obtain ⟨rfl, -⟩ := List.cons.inj whole'
    have taken := first_of_lexeme lexeme
    rw [Segment.first, if_pos blank] at taken
    cases taken
  | lineComment => exact absurd (Or.inl ⟨_, whole'⟩) noComment
  | blockComment => exact absurd (Or.inr ⟨_, whole'⟩) noComment
  | @lexeme text' _ token' lexeme' =>
    have length : text'.length = (d :: ds).length :=
      Nat.le_antisymm (longest _ _ lexeme' ⟨_, whole'⟩) (longest' _ _ lexeme ⟨_, rfl⟩)
    obtain ⟨rfl, -⟩ := List.append_inj whole' length
    rw [lexeme'.token_unique lexeme]
  | stray _ noLexeme =>
    obtain ⟨rfl, -⟩ := List.cons.inj whole'
    exact absurd lexeme (noLexeme _ _)
  | @openString contents unclosed =>
    obtain ⟨rfl, same⟩ := List.cons.inj whole'
    have raw : '"' ∉ ds := by
      intro member
      have inside : '"' ∈ ds ++ rest := List.mem_append_left rest member
      rw [← List.append_eq, ← same, List.append_eq, List.append_nil] at inside
      exact unclosed inside
    have taken := first_of_lexeme lexeme
    rw [first_quote, stringSegment_open raw] at taken
    cases taken
  | openComment => exact absurd (Or.inr ⟨_, whole'⟩) noComment

/-- What fits in front of the rest of a text is what is taken. -/
theorem Segment.Fits.first (fits : segment.Fits rest) (whole : segment.text ++ rest = c :: cs) :
    Segment.first c cs = segment := by
  cases fits with
  | blank blank =>
    obtain ⟨rfl, -⟩ := List.cons.inj whole
    rw [Segment.first, if_pos blank]
  | @lineComment comment rest line ended =>
    obtain ⟨rfl, rfl⟩ := List.cons.inj whole
    have taken : (comment ++ rest).takeWhile (· != '\n') = comment := by
      rcases ended with rfl | ⟨below, rfl⟩
      · rw [List.append_nil]
        exact List.takeWhile_eq_self_iff.mpr (bne_of_notMem line)
      · exact (run_ends (bne_of_notMem line) (bne_self_eq_false '\n') below).1
    rw [first_slash]
    simp only [List.append_eq, List.cons_append, slashSegment, taken]
  | @blockComment comment rest enclosed =>
    obtain ⟨rfl, rfl⟩ := List.cons.inj whole
    have closed : commentRest? 0 (comment ++ rest) = some comment := (enclosed.taken rest).1
    rw [first_slash]
    simp only [List.append_eq, List.cons_append, slashSegment, closed]
  | lexeme lexeme noComment longest => exact lexeme_first lexeme noComment longest whole
  | stray noBlank noLexeme =>
    obtain ⟨rfl, -⟩ := List.cons.inj whole
    exact stray_first noBlank noLexeme
  | @openString contents unclosed =>
    obtain ⟨rfl, rfl⟩ := List.cons.inj whole
    rw [first_quote, List.append_eq, List.append_nil, stringSegment_open unclosed]
  | @openComment comment unclosed =>
    obtain ⟨rfl, rfl⟩ := List.cons.inj whole
    have missing : commentRest? 0 comment = none := by
      cases closed : commentRest? 0 comment with
      | none => rfl
      | some body =>
        obtain ⟨enclosed, front⟩ := commentRest?_eq_some_iff.mp closed
        exact absurd front (unclosed body enclosed)
    rw [first_slash]
    simp only [List.append_eq, List.append_nil, slashSegment, missing]

/-! ### Splitting a text -/

theorem Segment.Fits.ne_nil (fits : segment.Fits rest) : segment.text ≠ [] := by
  cases fits with
  | lexeme lexeme =>
    obtain ⟨c, cs, rfl, -⟩ := lexeme.from
    exact List.cons_ne_nil _ _
  | _ => exact List.cons_ne_nil _ _

theorem rest_eq_drop (some : segment.text ≠ []) (whole : segment.text ++ rest = c :: cs) :
    rest = cs.drop (segment.text.length - 1) := by
  obtain ⟨d, ds, text⟩ := List.exists_cons_of_ne_nil some
  rw [text, List.cons_append] at whole
  obtain ⟨rfl, rfl⟩ := List.cons.inj whole
  simp [text]

theorem splits_segmentsFrom (skip : Nat) (cs : List Char) : Splits (cs.drop skip) (segmentsFrom skip cs) := by
  fun_induction segmentsFrom skip cs with
  | case1 skip =>
    rw [List.drop_nil]
    exact .nil
  | case2 c cs segment ih =>
    obtain ⟨rest, whole⟩ := Segment.first_text c cs
    rw [← rest_eq_drop (Segment.first_text_ne_nil c cs) whole] at ih
    rw [List.drop_zero, ← whole]
    exact .cons (first_fits whole) ih
  | case3 skip c cs ih => exact ih

theorem Splits.of_nil {segments : List Segment} (splits : Splits text segments) (empty : text = []) :
    segments = [] := by
  cases splits with
  | nil => rfl
  | cons fits => exact absurd (List.append_eq_nil_iff.mp empty).1 fits.ne_nil

theorem Splits.taken (skip : Nat) {found : List Segment} (splits : Splits (cs.drop skip) found) :
    found = segmentsFrom skip cs := by
  induction cs generalizing skip found with
  | nil => exact splits.of_nil List.drop_nil
  | cons c cs ih =>
    cases skip with
    | zero =>
      have next : segmentsFrom 0 (c :: cs) =
          Segment.first c cs :: segmentsFrom ((Segment.first c cs).text.length - 1) cs := rfl
      rw [next]
      rw [List.drop_zero] at splits
      generalize whole : c :: cs = text at splits
      cases splits with
      | nil => cases whole
      | cons fits more =>
        rw [rest_eq_drop fits.ne_nil whole.symm] at more
        rw [fits.first whole.symm, ih _ more]
    | succ skip => exact ih skip splits

/-- A text splits into the segments that are taken from it and into no others. -/
theorem splits_iff {found : List Segment} : Splits text found ↔ found = segments text := by
  constructor
  · intro splits
    exact splits.taken 0
  · rintro rfl
    exact splits_segmentsFrom 0 text

/-- The tokens among the segments of a text are spelled as lexemes. -/
theorem Splits.lexeme {found : List Segment} (splits : Splits text found) :
    ∀ segment ∈ found, ∀ token, segment.kind = .lexeme token → Lexeme segment.text token := by
  induction splits with
  | nil => exact fun segment member => nomatch member
  | cons fits _ ih =>
    refine List.forall_mem_cons.mpr ⟨fun token kind => ?_, ih⟩
    cases fits with
    | lexeme lexeme =>
      obtain rfl := SegmentKind.lexeme.inj kind
      exact lexeme
    | _ => cases kind

/-! ### What a scan reports -/

theorem lineBehind_cons (line : Nat) (segment : Segment) (segments : List Segment) :
    lineBehind line (segment :: segments) = lineBehind (line + segment.text.count '\n') segments := by
  rw [lineBehind, lineBehind, List.flatMap_cons, List.count_append, Nat.add_assoc]

theorem located_cons {α : Type} (read : SegmentKind → Nat → Option α) (line : Nat) (segment : Segment)
    (segments : List Segment) :
    located read line (segment :: segments) =
      (read segment.kind (line + segment.text.count '\n')).toList ++
        located read (line + segment.text.count '\n') segments := by
  have first : lineBehind line ((segment :: segments).take (0 + 1)) = line + segment.text.count '\n' :=
    lineBehind_cons line segment []
  unfold located
  rw [List.mapIdx_cons, first]
  simp only [List.take_succ_cons, lineBehind_cons]
  cases read segment.kind (line + segment.text.count '\n') <;> rfl

theorem tokens_ofSegments (line : Nat) (segments : List Segment) :
    (Scan.ofSegments line segments).tokens =
      located SegmentKind.token? line segments ++ [⟨.endOfInput, lineBehind line segments⟩] := by
  induction segments generalizing line with
  | nil => rfl
  | cons segment segments ih =>
    rw [Scan.ofSegments, lineBehind_cons, located_cons, List.append_assoc, ← ih]
    cases segment.kind <;> rfl

theorem diagnostics_ofSegments (line : Nat) (segments : List Segment) :
    (Scan.ofSegments line segments).diagnostics = located SegmentKind.error? line segments := by
  induction segments generalizing line with
  | nil => rfl
  | cons segment segments ih =>
    rw [Scan.ofSegments, located_cons, ← ih]
    cases segment.kind <;> rfl

theorem Splits.behind {before after : List Segment} (splits : Splits text (before ++ after)) :
    ∃ rest, Splits rest after := by
  induction before generalizing text with
  | nil => exact ⟨text, splits⟩
  | cons segment before ih =>
    cases splits with
    | cons _ more => exact ih more

/-- Nothing stands behind a string or a comment that is not closed. -/
theorem Splits.last_of_open {before after : List Segment} (splits : Splits text (before ++ segment :: after))
    (unclosed : segment.kind = .openString ∨ segment.kind = .openComment) : after = [] := by
  obtain ⟨rest, splits⟩ := splits.behind
  cases splits with
  | cons fits more =>
    refine more.of_nil ?_
    cases fits with
    | openString => rfl
    | openComment => rfl
    | _ => rcases unclosed with unclosed | unclosed <;> cases unclosed

theorem Segment.Fits.no_end (fits : segment.Fits rest) {line : Nat} {t : Located}
    (read : segment.kind.token? line = some t) : t.token ≠ .endOfInput := by
  cases fits with
  | lexeme lexeme =>
    obtain rfl := Option.some.inj read
    rintro rfl
    cases lexeme
  | _ => cases read

theorem Splits.no_end {found : List Segment} (splits : Splits text found) (line : Nat) :
    ∀ t ∈ located SegmentKind.token? line found, t.token ≠ .endOfInput := by
  induction splits generalizing line with
  | nil => exact List.forall_mem_nil _
  | @cons segment _ _ fits _ ih =>
    intro t member
    rw [located_cons] at member
    rcases List.mem_append.mp member with here | later
    · exact fits.no_end (Option.mem_toList.mp here)
    · exact ih _ t later

theorem mem_located {α : Type} {read : SegmentKind → Nat → Option α} {line : Nat} {found : List Segment} {a : α}
    (member : a ∈ located read line found) : ∃ segment ∈ found, ∃ line', read segment.kind line' = some a := by
  obtain ⟨read?, listed, rfl⟩ := List.mem_filterMap.mp member
  obtain ⟨i, inside, same⟩ := List.mem_mapIdx.mp listed
  exact ⟨found[i], List.getElem_mem inside, _, same⟩

/-- The tokens of a text up to the end of the input are spelled as lexemes in it. -/
theorem scan_lexemes (source : String) :
    ∃ before last, (scan source).tokens = before ++ [⟨.endOfInput, last⟩] ∧
      ∀ l ∈ before, l.token ≠ .endOfInput ∧ ∃ text, Lexeme text l.token := by
  have splits : Splits source.toList (segments source.toList) := splits_iff.mpr rfl
  refine ⟨_, _, tokens_ofSegments 1 _, fun l member => ⟨splits.no_end 1 l member, ?_⟩⟩
  obtain ⟨⟨kind, text⟩, found, line, read⟩ := mem_located member
  cases kind with
  | lexeme token =>
    obtain rfl := Option.some.inj read
    exact ⟨text, splits.lexeme _ found token rfl⟩
  | _ => cases read

/-- A text splits into segments in one way. The tokens of its scan in front of the end of the input are those of
the lexemes, and the errors those of the other segments that are not blanks or comments, each on the line on which
the segment ends. -/
theorem scan_splits (source : String) :
    ∃ found, Splits source.toList found ∧ (∀ others, Splits source.toList others → others = found) ∧
      (∀ before segment after, found = before ++ segment :: after →
        segment.kind = .openString ∨ segment.kind = .openComment → after = []) ∧
      (scan source).tokens = located SegmentKind.token? 1 found ++ [⟨.endOfInput, 1 + source.toList.count '\n'⟩] ∧
      (∀ t ∈ located SegmentKind.token? 1 found, t.token ≠ .endOfInput) ∧
      (scan source).diagnostics = located SegmentKind.error? 1 found := by
  have splits : Splits source.toList (segments source.toList) := splits_iff.mpr rfl
  refine ⟨segments source.toList, splits, fun others same => splits_iff.mp same, ?_, ?_, splits.no_end 1,
    diagnostics_ofSegments 1 _⟩
  · intro before segment after whole unclosed
    exact Splits.last_of_open (whole ▸ splits) unclosed
  · have tokens := tokens_ofSegments 1 (segments source.toList)
    rwa [lineBehind, flatMap_segments] at tokens

end Lox
