import Lox.Proofs.Lexeme.Splitting
import Lox.Proofs.Number.Numerals

/-!
The spellings of tokens scan back. A lexeme ends in front of a blank, whatever follows, so the spellings of the
tokens of a text with a blank between each two of them are the lexemes of another text with the same tokens.
-/

namespace Lox

/-- The number that a numeral names, with a point in it or without one. -/
def Number.ofNumeral (numeral : List Char) : Float :=
  ofDigits (numeral.takeWhile Char.isDigit) ((numeral.dropWhile Char.isDigit).drop 1)

/-- The words of a text: its tokens in front of the end of the input. -/
def Scan.words (found : Scan) : List Token :=
  (found.tokens.map Located.token).filter (· ≠ .endOfInput)

/-- The spellings of some tokens, with a character between each two of them. -/
def respelled (separator : Char) (words : List Token) : String :=
  (String.singleton separator).intercalate (words.map Token.text)

variable {c : Char} {cs rest text : List Char} {token : Token}

/-! ### A lexeme in front of a blank -/

theorem blank_cases (blank : isBlank c) : c = ' ' ∨ c = '\t' ∨ c = '\r' ∨ c = '\n' := by
  simpa [isBlank, or_assoc] using blank

/-- No run goes on with a blank, and a blank is no point, no equals sign and no start of a comment. -/
theorem blank_ends (blank : isBlank c) (rest : List Char) :
    c.isDigit = false ∧ isWordPart c = false ∧ fraction (c :: rest) = [] ∧
      slashSegment (c :: rest) = ⟨.lexeme (.mark .slash), ['/']⟩ ∧
      ∀ d m, markSegment d m (c :: rest) = ⟨.lexeme (.mark m), [d]⟩ := by
  rcases blank_cases blank with rfl | rfl | rfl | rfl <;> exact ⟨rfl, rfl, rfl, rfl, fun _ _ => rfl⟩

theorem first_before_blank {blank : Char} (isBlank : isBlank blank) (lexeme : Lexeme (c :: cs) token)
    (rest : List Char) : Segment.first c (cs ++ blank :: rest) = ⟨.lexeme token, c :: cs⟩ := by
  obtain ⟨noDigit, noPart, noFraction, slash, single⟩ := blank_ends isBlank rest
  cases lexeme.from_cons with
  | word start parts => rw [first_word start, wordSegment, (run_ends parts noPart rest).1]
  | whole digit all =>
    obtain ⟨taken, dropped⟩ := run_ends all noDigit rest
    rw [first_digit digit]
    simp only [numberSegment, taken, dropped, noFraction]
  | @decimal _ whole digits digit all someBehind allBehind =>
    have noMore : (blank :: rest).takeWhile Char.isDigit = [] := List.takeWhile_cons_of_neg (by rw [noDigit]; decide)
    have text : whole ++ '.' :: digits ++ blank :: rest = whole ++ '.' :: (digits ++ blank :: rest) := by simp
    rw [text, first_digit digit, numberSegment_decimal all someBehind allBehind, noMore, List.append_nil]
  | @string contents raw =>
    have text : contents ++ ['"'] ++ blank :: rest = contents ++ '"' :: blank :: rest := by simp
    rw [text, first_quote, stringSegment_closed raw]
  | @single _ m known =>
    rw [List.nil_append]
    by_cases isSlash : c = '/'
    · subst isSlash
      obtain rfl := Option.some.inj known
      exact slash
    · rw [first_mark known isSlash, single]
  | @double _ first m known both =>
    rw [List.singleton_append, first_mark known (Mark.noSlash known both)]
    simp only [markSegment, both]

/-- A lexeme fits at the end of a text and in front of a blank. -/
theorem Lexeme.fits (lexeme : Lexeme text token) (apart : ∀ d ∈ rest.head?, isBlank d) :
    Segment.Fits ⟨.lexeme token, text⟩ rest := by
  obtain ⟨c, cs, rfl, -⟩ := lexeme.from
  have first : Segment.first c (cs ++ rest) = ⟨.lexeme token, c :: cs⟩ := by
    cases rest with
    | nil => rw [List.append_nil, first_of_lexeme lexeme]
    | cons d rest => exact first_before_blank (apart d rfl) lexeme rest
  have fits : (Segment.first c (cs ++ rest)).Fits rest := first_fits (by rw [first]; rfl)
  rwa [first] at fits

/-! ### Spellings -/

theorem Number.Numeral.lexeme (numeral : Numeral text) : Lexeme text (.number (ofNumeral text)) := by
  cases numeral with
  | whole some all =>
    have value : ofNumeral text = ofDigits text [] := by
      rw [ofNumeral, List.takeWhile_eq_self_iff.mpr all, List.dropWhile_eq_nil_iff.mpr all, List.drop_nil]
    exact value ▸ .whole some all
  | @decimal whole fraction some all someBehind allBehind =>
    obtain ⟨taken, dropped⟩ := run_ends all (rfl : Char.isDigit '.' = false) fraction
    have value : ofNumeral (whole ++ '.' :: fraction) = ofDigits whole fraction := by
      rw [ofNumeral, taken, dropped, List.drop_succ_cons, List.drop_zero]
    exact value ▸ .decimal some all someBehind allBehind

theorem number_respelled {x : Float} (magnitude : Number.Magnitude x)
    (readable : Number.infinite x = false ∧ Number.ofNumeral (Number.text x).toList = x) :
    Lexeme (Number.text x).toList (.number x) := by
  obtain ⟨finite, reads⟩ := readable
  rcases magnitude.text with ⟨infinite, -⟩ | ⟨-, numeral⟩
  · rw [finite] at infinite
    cases infinite
  · have lexeme := numeral.lexeme
    rwa [reads] at lexeme

/-- The spelling of a token is a lexeme of it. Of a number it is another one than in the text, if the numeral there
was not the shortest. -/
theorem Lexeme.respelled (lexeme : Lexeme text token)
    (readable : ∀ x, token = .number x →
      Number.infinite x = false ∧ Number.ofNumeral (Number.text x).toList = x) : Lexeme token.text.toList token := by
  cases lexeme with
  | mark m => exact .mark m
  | keyword k => exact .keyword k
  | @identifier c cs start parts free =>
    have spelling : (Token.identifier (.ofList (c :: cs))).text.toList = c :: cs := String.toList_ofList
    rw [spelling]
    exact .identifier start parts free
  | whole =>
    exact number_respelled (Number.ofDigits_magnitude text []) (readable _ rfl)
  | @decimal whole fraction =>
    exact number_respelled (Number.ofDigits_magnitude whole fraction) (readable _ rfl)
  | @string contents raw =>
    have spelling : (Token.string (.ofList contents)).text.toList = '"' :: (contents ++ ['"']) := by simp [Token.text]
    rw [spelling]
    exact .string raw

/-! ### Spellings apart -/

/-- The segments of some tokens with a blank between each two of them. -/
def spaced (blank : Char) : List Token → List Segment
  | [] => []
  | [t] => [⟨.lexeme t, t.text.toList⟩]
  | t :: u :: ts => ⟨.lexeme t, t.text.toList⟩ :: ⟨.blank, [blank]⟩ :: spaced blank (u :: ts)

theorem splits_spaced (blank : isBlank c) : ∀ {words : List Token}, (∀ t ∈ words, Lexeme t.text.toList t) →
    Splits (respelled c words).toList (spaced c words)
  | [], _ => .nil
  | [t], lexemes => by
    have fits : Segment.Fits ⟨.lexeme t, t.text.toList⟩ [] := (lexemes t List.mem_cons_self).fits nofun
    have splits := Splits.cons fits .nil
    rwa [List.append_nil] at splits
  | t :: u :: words, lexemes => by
    obtain ⟨lexeme, lexemes⟩ := List.forall_mem_cons.mp lexemes
    have text : (respelled c (t :: u :: words)).toList =
        t.text.toList ++ ([c] ++ (respelled c (u :: words)).toList) := by
      simp [respelled, String.intercalate_cons_cons]
    rw [text]
    refine .cons (lexeme.fits fun d head => ?_) (.cons (.blank blank) (splits_spaced blank lexemes))
    obtain rfl := Option.some.inj head
    exact blank

theorem ofSegments_spaced (line : Nat) (words : List Token) :
    ((Scan.ofSegments line (spaced c words)).tokens.map Located.token) = words ++ [.endOfInput] ∧
      (Scan.ofSegments line (spaced c words)).diagnostics = [] := by
  induction words using spaced.induct generalizing line with
  | case1 => exact ⟨rfl, rfl⟩
  | case2 t => exact ⟨rfl, rfl⟩
  | case3 t u words ih =>
    obtain ⟨tokens, diagnostics⟩ := ih (line + t.text.toList.count '\n' + [c].count '\n')
    exact ⟨congrArg (t :: ·) tokens, diagnostics⟩

/-! ### Words of a text -/

/-- The words of a text are its tokens up to the end of the input, and are spelled as lexemes in it. -/
theorem scan_words (source : String) :
    (scan source).tokens.map Located.token = (scan source).words ++ [.endOfInput] ∧
      ∀ t ∈ (scan source).words, ∃ text, Lexeme text t := by
  obtain ⟨before, last, tokens, lexemes⟩ := scan_lexemes source
  have inside : ∀ t ∈ before.map Located.token, decide (t ≠ .endOfInput) = true :=
    List.forall_mem_map.mpr fun l member => decide_eq_true (lexemes l member).1
  have words : (scan source).words = before.map Located.token := by
    rw [Scan.words, tokens, List.map_append, List.filter_append, List.filter_eq_self.mpr inside]
    exact List.append_nil _
  rw [words, tokens, List.map_append]
  exact ⟨rfl, List.forall_mem_map.mpr fun l member => (lexemes l member).2⟩

/-- The spellings of the words of a text with blanks between them scan to those words, provided that the numerals of
the numbers among them read back. -/
theorem scan_respelled {source : String} {separator : Char} (blank : isBlank separator)
    (readable : ∀ x, .number x ∈ (scan source).words →
      Number.infinite x = false ∧ Number.ofNumeral (Number.text x).toList = x) :
    let again := scan (respelled separator (scan source).words)
    again.diagnostics = [] ∧ again.tokens.map Located.token = (scan source).tokens.map Located.token := by
  intro again
  obtain ⟨ended, lexemes⟩ := scan_words source
  have splits := splits_spaced blank fun t member => by
    obtain ⟨text, lexeme⟩ := lexemes t member
    exact lexeme.respelled fun x same => readable x (same ▸ member)
  have segments : again = .ofSegments 1 (spaced separator (scan source).words) :=
    congrArg (Scan.ofSegments 1) (splits_iff.mp splits).symm
  obtain ⟨tokens, diagnostics⟩ := ofSegments_spaced (c := separator) 1 (scan source).words
  exact ⟨segments ▸ diagnostics, by rw [segments, tokens, ended]⟩

theorem scan_respelled_marks :
    let source := "<=/ / *a1=\"//\n\"1.50!.superb"
    let words := (scan source).words
    respelled ' ' words = "<= / / * a1 = \"//\n\" 1.5 ! . superb" ∧
    (scan (respelled '\n' words)).diagnostics = [] ∧
    (scan (respelled '\n' words)).tokens.map Located.token = (scan source).tokens.map Located.token := by
  intro source words
  have same : words = [.mark .lessEqual, .mark .slash, .mark .slash, .mark .star, .identifier "a1", .mark .equal,
      .string "//\n", .number 1.5, .mark .bang, .mark .dot, .identifier "superb"] := by decide +kernel
  refine ⟨by rw [same]; decide +kernel, scan_respelled rfl fun x member => ?_⟩
  have is : x = 1.5 := by simpa [words, same] using member
  rw [is]
  decide +kernel

end Lox
