import Lox.Lexeme.Token

/-!
# Segments of a source text

A source text splits, left to right, into blanks, comments, lexemes and characters that can start
nothing.  `Segment.first` takes the segment at the front of a text that is not empty, and
`segments` all of them.  No character is lost: `flatMap_segments` gives the text back.
-/

namespace Lox

/-- What a piece of a source text is. -/
inductive SegmentKind
  | blank
  | lineComment
  | blockComment
  | lexeme (token : Token)
  | stray (char : Char)
  | openString
  | openComment
deriving DecidableEq

/-- A piece of a source text. -/
structure Segment where
  kind : SegmentKind
  text : List Char
deriving DecidableEq

/-- Spaces, tabs and both line-ending characters. -/
def isBlank (c : Char) : Bool :=
  c = ' ' || c = '\t' || c = '\r' || c = '\n'

/-- ASCII letters and the underscore, which may start a word. -/
def isWordStart (c : Char) : Bool :=
  c.isAlpha || c = '_'

/-- ASCII letters and digits and the underscore, which may go on with a word. -/
def isWordPart (c : Char) : Bool :=
  c.isAlphanum || c = '_'

/-- The text of a block comment from behind its opening mark through its closing mark, with `depth`
comments open inside it; none if the text ends first. -/
def commentRest? : (depth : Nat) → List Char → Option (List Char)
  | depth, '/' :: '*' :: cs => (commentRest? (depth + 1) cs).map ('/' :: '*' :: ·)
  | 0, '*' :: '/' :: _ => some ['*', '/']
  | depth + 1, '*' :: '/' :: cs => (commentRest? depth cs).map ('*' :: '/' :: ·)
  | depth, c :: cs => (commentRest? depth cs).map (c :: ·)
  | _, [] => none

/-- The digits behind a point, if the text starts with a point and a digit. -/
def fraction : List Char → List Char
  | '.' :: cs => cs.takeWhile Char.isDigit
  | _ => []

/-- A number that starts with the digit `c`: digits, and a fraction if there is one. -/
def numberSegment (c : Char) (cs : List Char) : Segment :=
  let whole := c :: cs.takeWhile Char.isDigit
  match fraction (cs.dropWhile Char.isDigit) with
  | [] => ⟨.lexeme (.number (Number.ofDigits whole [])), whole⟩
  | digits => ⟨.lexeme (.number (Number.ofDigits whole digits)), whole ++ '.' :: digits⟩

/-- A word that starts with `c`. -/
def wordSegment (c : Char) (cs : List Char) : Segment :=
  let word := c :: cs.takeWhile isWordPart
  ⟨.lexeme (.ofWord (.ofList word)), word⟩

/-- A string literal behind its opening quote: it is raw, may hold line feeds, and ends at the next
quote. -/
def stringSegment (cs : List Char) : Segment :=
  let contents := cs.takeWhile (· != '"')
  match cs.dropWhile (· != '"') with
  | [] => ⟨.openString, '"' :: cs⟩
  | _ :: _ => ⟨.lexeme (.string (.ofList contents)), '"' :: contents ++ ['"']⟩

/-- A mark, with the equals sign behind it if the two are one mark. -/
def markSegment (c : Char) (mark : Mark) : List Char → Segment
  | '=' :: _ =>
    match mark.withEqual? with
    | some double => ⟨.lexeme (.mark double), [c, '=']⟩
    | none => ⟨.lexeme (.mark mark), [c]⟩
  | _ => ⟨.lexeme (.mark mark), [c]⟩

/-- What a slash starts: a comment to the end of the line, a block comment, or itself. -/
def slashSegment : List Char → Segment
  | '/' :: cs => ⟨.lineComment, '/' :: '/' :: cs.takeWhile (· != '\n')⟩
  | '*' :: cs =>
    match commentRest? 0 cs with
    | some body => ⟨.blockComment, '/' :: '*' :: body⟩
    | none => ⟨.openComment, '/' :: '*' :: cs⟩
  | _ => ⟨.lexeme (.mark .slash), ['/']⟩

/-- The segment at the front of the text `c :: cs`. -/
def Segment.first (c : Char) (cs : List Char) : Segment :=
  if isBlank c then ⟨.blank, [c]⟩
  else if c = '/' then slashSegment cs
  else if c = '"' then stringSegment cs
  else if c.isDigit then numberSegment c cs
  else if isWordStart c then wordSegment c cs
  else
    match Mark.ofChar? c with
    | some mark => markSegment c mark cs
    | none => ⟨.stray c, [c]⟩

/-- The segments of a text of which the first `skip` characters are taken already. -/
def segmentsFrom : (skip : Nat) → List Char → List Segment
  | _, [] => []
  | 0, c :: cs =>
    let segment := Segment.first c cs
    segment :: segmentsFrom (segment.text.length - 1) cs
  | skip + 1, _ :: cs => segmentsFrom skip cs

def segments (text : List Char) : List Segment :=
  segmentsFrom 0 text

/-! ### No character is lost -/

theorem commentRest?_append {depth : Nat} {cs body : List Char} (h : commentRest? depth cs = some body) :
    body <+: cs := by
  fun_induction commentRest? depth cs generalizing body with
  | case1 depth cs ih =>
    obtain ⟨b, hb, rfl⟩ := Option.map_eq_some_iff.mp h
    simpa using ih hb
  | case2 => simp only [Option.some.injEq] at h; subst h; exact ⟨_, rfl⟩
  | case3 depth cs ih =>
    obtain ⟨b, hb, rfl⟩ := Option.map_eq_some_iff.mp h
    simpa using ih hb
  | case4 depth c cs _ _ _ ih =>
    obtain ⟨b, hb, rfl⟩ := Option.map_eq_some_iff.mp h
    simpa using ih hb
  | case5 => simp at h

theorem fraction_append {cs : List Char} (h : fraction cs ≠ []) : '.' :: fraction cs <+: cs := by
  unfold fraction at h ⊢
  split at h
  · simpa using List.takeWhile_prefix _
  · exact absurd rfl h

theorem numberSegment_text (c : Char) (cs : List Char) : (numberSegment c cs).text <+: c :: cs := by
  unfold numberSegment
  have split_cs := List.takeWhile_append_dropWhile (p := Char.isDigit) (l := cs)
  split
  · simpa using List.takeWhile_prefix _
  · next digits hne =>
    have tail : '.' :: fraction (cs.dropWhile Char.isDigit) <+: cs.dropWhile Char.isDigit :=
      fraction_append hne
    have := (List.prefix_append_right_inj (cs.takeWhile Char.isDigit)).mpr tail
    rw [split_cs] at this
    simpa using this

theorem stringSegment_text (cs : List Char) : (stringSegment cs).text <+: '"' :: cs := by
  unfold stringSegment
  have split_cs := List.takeWhile_append_dropWhile (p := (· != '"')) (l := cs)
  split
  · exact List.prefix_refl _
  · next c rest hrest =>
    have hc : c = '"' := by
      have := List.head?_dropWhile_not (· != '"') cs
      simpa [hrest] using this
    subst hc
    rw [hrest] at split_cs
    refine ⟨rest, ?_⟩
    simpa using split_cs

theorem markSegment_text (c : Char) (mark : Mark) (cs : List Char) :
    (markSegment c mark cs).text <+: c :: cs := by
  unfold markSegment
  split
  · split
    · exact ⟨_, rfl⟩
    · exact ⟨_, rfl⟩
  · exact ⟨_, rfl⟩

theorem slashSegment_text (cs : List Char) : (slashSegment cs).text <+: '/' :: cs := by
  unfold slashSegment
  split
  · simpa using List.takeWhile_prefix _
  · split
    · next h => simpa using commentRest?_append h
    · exact List.prefix_refl _
  · exact ⟨_, rfl⟩

theorem Segment.first_text (c : Char) (cs : List Char) : (Segment.first c cs).text <+: c :: cs := by
  unfold Segment.first
  split
  · exact ⟨_, rfl⟩
  split
  · next h => rw [h]; exact slashSegment_text cs
  split
  · next h => rw [h]; exact stringSegment_text cs
  split
  · exact numberSegment_text c cs
  split
  · simpa [wordSegment] using List.takeWhile_prefix _
  split
  · exact markSegment_text c _ cs
  · exact ⟨_, rfl⟩

theorem slashSegment_text_ne_nil (cs : List Char) : (slashSegment cs).text ≠ [] := by
  unfold slashSegment
  repeat' split
  all_goals simp

theorem Segment.first_text_ne_nil (c : Char) (cs : List Char) : (Segment.first c cs).text ≠ [] := by
  unfold Segment.first
  split
  · simp
  split
  · exact slashSegment_text_ne_nil cs
  split
  · unfold stringSegment; split <;> simp
  split
  · unfold numberSegment; split <;> simp
  split
  · simp [wordSegment]
  split
  · unfold markSegment; repeat' split
    all_goals simp
  · simp

theorem flatMap_segmentsFrom (skip : Nat) (cs : List Char) :
    (segmentsFrom skip cs).flatMap Segment.text = cs.drop skip := by
  fun_induction segmentsFrom skip cs with
  | case1 => simp
  | case2 c cs segment ih =>
    obtain ⟨rest, hrest⟩ := Segment.first_text c cs
    have hne := Segment.first_text_ne_nil c cs
    rw [List.flatMap_cons, ih]
    cases ht : (Segment.first c cs).text with
    | nil => exact absurd ht hne
    | cons d ds =>
      rw [ht, List.cons_append, List.cons.injEq] at hrest
      simp [← hrest.1, ← hrest.2]
  | case3 skip c cs ih => simpa using ih

/-- The segments of a text, put together, are the text. -/
theorem flatMap_segments (text : List Char) : (segments text).flatMap Segment.text = text := by
  simp [segments, flatMap_segmentsFrom]

end Lox
