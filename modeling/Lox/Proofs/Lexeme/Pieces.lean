import Lox.Lexeme.Scan
import Lox.Proofs.Syntax.Natural

/-!
Texts put together with a line feed. No segment goes past a line feed but comments and strings, and those
that are closed end in front of it. So the tokens of the whole are those of the one text and those of the
other, further down.
-/

namespace Lox

/-! ### Segments in front of a line feed -/

theorem takeWhile_stops {p : Char → Bool} {c : Char} (stops : p c = false) (cs rest : List Char) :
    (cs ++ c :: rest).takeWhile p = cs.takeWhile p := by
  induction cs with
  | nil => simp [stops]
  | cons d cs ih =>
    rw [List.cons_append, List.takeWhile_cons, List.takeWhile_cons, ih]

theorem dropWhile_stops {p : Char → Bool} {c : Char} (stops : p c = false) (cs rest : List Char) :
    (cs ++ c :: rest).dropWhile p = cs.dropWhile p ++ c :: rest := by
  induction cs with
  | nil => simp [stops]
  | cons d cs ih =>
    rw [List.cons_append, List.dropWhile_cons, List.dropWhile_cons, ih]
    split <;> rfl

theorem takeWhile_inside {p : Char → Bool} {cs : List Char} (inside : cs.dropWhile p ≠ []) (rest : List Char) :
    (cs ++ rest).takeWhile p = cs.takeWhile p ∧ (cs ++ rest).dropWhile p = cs.dropWhile p ++ rest := by
  induction cs with
  | nil => exact absurd rfl inside
  | cons d cs ih =>
    rw [List.dropWhile_cons] at inside
    rw [List.cons_append, List.takeWhile_cons, List.takeWhile_cons, List.dropWhile_cons, List.dropWhile_cons]
    split
    · next goes =>
      rw [if_pos goes] at inside
      rw [(ih inside).1, (ih inside).2]
      exact ⟨rfl, rfl⟩
    · exact ⟨rfl, rfl⟩

theorem commentRest?_more {depth : Nat} {cs body : List Char} (closed : commentRest? depth cs = some body)
    (rest : List Char) : commentRest? depth (cs ++ rest) = some body := by
  fun_induction commentRest? depth cs generalizing body with
  | case1 depth cs ih =>
    obtain ⟨b, inner, rfl⟩ := Option.map_eq_some_iff.mp closed
    rw [List.cons_append, List.cons_append, commentRest?, ih inner]
    rfl
  | case2 cs => exact closed
  | case3 depth cs ih =>
    obtain ⟨b, inner, rfl⟩ := Option.map_eq_some_iff.mp closed
    rw [List.cons_append, List.cons_append, commentRest?, ih inner]
    rfl
  | case4 depth c cs opens closes₀ closes ih =>
    obtain ⟨b, inner, rfl⟩ := Option.map_eq_some_iff.mp closed
    cases cs with
    | nil => cases depth <;> cases inner
    | cons d cs =>
      have head {e : Char} {tail : List Char} (same : d :: cs ++ rest = e :: tail) : d :: cs = e :: cs :=
        congrArg (· :: cs) (List.cons.inj same).1
      rw [List.cons_append, commentRest?, ih inner]
      · rfl
      · exact fun _ slash same => opens cs slash (head same)
      · exact fun _ zero star same => closes₀ cs zero star (head same)
      · exact fun depth _ succ star same => closes depth cs succ star (head same)
  | case5 => cases closed

/-- A segment that is closed in front of the end of a text. -/
def SegmentKind.Closed (kind : SegmentKind) : Prop :=
  kind ≠ .openString ∧ kind ≠ .openComment

section LineFeed

variable {c : Char} {cs : List Char} (rest : List Char)

theorem fraction_lineFeed : fraction (cs ++ '\n' :: rest) = fraction cs := by
  cases cs with
  | nil => rfl
  | cons d cs =>
    unfold fraction
    rw [List.cons_append]
    split
    · next same =>
      obtain ⟨rfl, rfl⟩ := List.cons.inj same
      exact takeWhile_stops rfl cs rest
    · next other =>
      split
      · next same =>
        obtain ⟨rfl, rfl⟩ := List.cons.inj same
        exact absurd rfl (other _)
      · rfl

theorem numberSegment_lineFeed : numberSegment c (cs ++ '\n' :: rest) = numberSegment c cs := by
  have stops : Char.isDigit '\n' = false := rfl
  unfold numberSegment
  rw [takeWhile_stops stops, dropWhile_stops stops, fraction_lineFeed]

theorem wordSegment_lineFeed : wordSegment c (cs ++ '\n' :: rest) = wordSegment c cs := by
  have stops : isWordPart '\n' = false := rfl
  unfold wordSegment
  rw [takeWhile_stops stops]

theorem stringSegment_lineFeed (closed : (stringSegment cs).kind.Closed) :
    stringSegment (cs ++ '\n' :: rest) = stringSegment cs := by
  have inside : cs.dropWhile (· != '"') ≠ [] := by
    intro missing
    refine closed.1 ?_
    unfold stringSegment
    rw [missing]
  obtain ⟨contents, behind⟩ := takeWhile_inside inside ('\n' :: rest)
  unfold stringSegment
  rw [contents, behind]
  cases dropped : cs.dropWhile (· != '"') with
  | nil => exact absurd dropped inside
  | cons quote others => rfl

theorem markSegment_lineFeed (mark : Mark) :
    markSegment c mark (cs ++ '\n' :: rest) = markSegment c mark cs := by
  cases cs with
  | nil => rfl
  | cons d cs =>
    unfold markSegment
    rw [List.cons_append]
    split
    · next same =>
      obtain ⟨rfl, rfl⟩ := List.cons.inj same
      rfl
    · next other =>
      split
      · next same =>
        obtain ⟨rfl, rfl⟩ := List.cons.inj same
        exact absurd rfl (other _)
      · rfl

theorem slashSegment_lineFeed (closed : (slashSegment cs).kind.Closed) :
    slashSegment (cs ++ '\n' :: rest) = slashSegment cs := by
  unfold slashSegment at closed ⊢
  split at closed
  · next cs =>
    have stops : ('\n' != '\n') = false := rfl
    rw [List.cons_append]
    simp only [takeWhile_stops (p := (· != '\n')) stops]
  · next cs =>
    rw [List.cons_append]
    cases body : commentRest? 0 cs with
    | none =>
      rw [body] at closed
      exact absurd rfl closed.2
    | some body' => simp only [commentRest?_more body]
  · next noLine noBlock =>
    cases cs with
    | nil => rfl
    | cons d cs =>
      rw [List.cons_append]
      split
      · next same =>
        obtain ⟨rfl, rfl⟩ := List.cons.inj same
        exact absurd rfl (noLine cs)
      · next same =>
        obtain ⟨rfl, rfl⟩ := List.cons.inj same
        exact absurd rfl (noBlock cs)
      · rfl

theorem first_lineFeed (closed : (Segment.first c cs).kind.Closed) :
    Segment.first c (cs ++ '\n' :: rest) = Segment.first c cs := by
  unfold Segment.first at closed ⊢
  split
  · rfl
  · next noBlank =>
    rw [if_neg noBlank] at closed
    split
    · next slash =>
      rw [if_pos slash] at closed
      exact slashSegment_lineFeed rest closed
    · next noSlash =>
      rw [if_neg noSlash] at closed
      split
      · next quote =>
        rw [if_pos quote] at closed
        exact stringSegment_lineFeed rest closed
      · rw [numberSegment_lineFeed, wordSegment_lineFeed]
        simp only [markSegment_lineFeed]

theorem segmentsFrom_lineFeed {skip : Nat} (within : skip ≤ cs.length)
    (closed : ∀ segment ∈ segmentsFrom skip cs, segment.kind.Closed) :
    segmentsFrom skip (cs ++ '\n' :: rest) = segmentsFrom skip cs ++ ⟨.blank, ['\n']⟩ :: segments rest := by
  fun_induction segmentsFrom skip cs with
  | case1 skip =>
    obtain rfl : skip = 0 := Nat.le_zero.mp within
    rfl
  | case2 c cs segment ih =>
    have first : Segment.first c (cs ++ '\n' :: rest) = segment :=
      first_lineFeed rest (closed segment List.mem_cons_self)
    have inside : segment.text.length - 1 ≤ cs.length := by
      have length : segment.text.length ≤ (c :: cs).length := (Segment.first_text c cs).length_le
      rw [List.length_cons] at length
      omega
    rw [List.cons_append, segmentsFrom, first, List.cons_append]
    exact congrArg (segment :: ·) (ih inside fun other member => closed other (List.mem_cons_of_mem _ member))
  | case3 skip c cs ih =>
    rw [List.cons_append, segmentsFrom]
    exact ih (Nat.le_of_succ_le_succ within) closed

end LineFeed

/-! ### Tokens and errors -/

namespace Scan

/-- The tokens and errors of one text and behind them those of another one. -/
def join (first second : Scan) : Scan :=
  ⟨first.tokens.dropLast ++ second.tokens, first.diagnostics ++ second.diagnostics⟩

def relabel (φ : Relabeling) (scanned : Scan) : Scan :=
  ⟨scanned.tokens.map (Located.relabel φ), scanned.diagnostics.map (Diagnostic.relabel φ)⟩

theorem add_tokens_ne_nil (line : Nat) (kind : SegmentKind) {scanned : Scan} (some : scanned.tokens ≠ []) :
    (scanned.add line kind).tokens ≠ [] := by
  cases kind with
  | lexeme t => exact List.cons_ne_nil _ _
  | _ => exact some

theorem ofSegments_tokens_ne_nil (line : Nat) (segments : List Segment) :
    (ofSegments line segments).tokens ≠ [] := by
  induction segments generalizing line with
  | nil => exact List.cons_ne_nil _ _
  | cons segment rest ih => exact add_tokens_ne_nil _ _ (ih _)

theorem add_join (line : Nat) (kind : SegmentKind) {first : Scan} (some : first.tokens ≠ []) (second : Scan) :
    (first.join second).add line kind = (first.add line kind).join second := by
  cases kind with
  | lexeme t =>
    unfold add join
    rw [List.dropLast_cons_of_ne_nil some]
    rfl
  | _ => rfl

theorem ofSegments_append (line : Nat) (as bs : List Segment) :
    ofSegments line (as ++ bs) =
      (ofSegments line as).join (ofSegments (line + (as.flatMap Segment.text).count '\n') bs) := by
  induction as generalizing line with
  | nil => rfl
  | cons segment as ih =>
    rw [List.cons_append, ofSegments, ih, add_join _ _ (ofSegments_tokens_ne_nil _ _), List.flatMap_cons,
      List.count_append, ← Nat.add_assoc]
    rfl

theorem add_getLast? (line : Nat) (kind : SegmentKind) {scanned : Scan} {last : Located}
    (ends : scanned.tokens.getLast? = some last) : (scanned.add line kind).tokens.getLast? = some last := by
  cases kind with
  | lexeme t =>
    change (_ :: scanned.tokens).getLast? = _
    rw [List.getLast?_cons, ends]
    rfl
  | _ => exact ends

/-- The end of the input is on the line behind all line feeds. -/
theorem ofSegments_getLast? (line : Nat) (segments : List Segment) :
    (ofSegments line segments).tokens.getLast? =
      some ⟨.endOfInput, line + (segments.flatMap Segment.text).count '\n'⟩ := by
  induction segments generalizing line with
  | nil => rfl
  | cons segment rest ih =>
    rw [List.flatMap_cons, List.count_append, ← Nat.add_assoc]
    exact add_getLast? _ _ (ih _)

theorem add_relabel (count line : Nat) (kind : SegmentKind) (scanned : Scan) :
    (scanned.relabel (.lines (· + count))).add (line + count) kind =
      (scanned.add line kind).relabel (.lines (· + count)) := by
  cases kind with
  | lexeme t =>
    have token : t.relabel (.lines (· + count)) = t := t.relabel_kept fun _ => rfl
    simp only [add, relabel, List.map_cons, Located.relabel, token]
    rfl
  | _ => rfl

/-- Segments further down. -/
theorem ofSegments_down (count line : Nat) (segments : List Segment) :
    ofSegments (line + count) segments = (ofSegments line segments).relabel (.lines (· + count)) := by
  induction segments generalizing line with
  | nil => rfl
  | cons segment rest ih =>
    have next : line + count + segment.text.count '\n' = line + segment.text.count '\n' + count :=
      Nat.add_right_comm _ _ _
    unfold ofSegments
    dsimp only
    rw [next, ih, add_relabel]

/-- Where nothing is reported of it, a segment is closed. -/
theorem closed_of_clean {line : Nat} {segments : List Segment}
    (clean : ∀ d ∈ (ofSegments line segments).diagnostics,
      d.error ≠ .unterminatedString ∧ d.error ≠ .unterminatedComment) :
    ∀ segment ∈ segments, segment.kind.Closed := by
  induction segments generalizing line with
  | nil => exact fun _ member => nomatch member
  | cons segment rest ih =>
    have behind : ∀ d ∈ (ofSegments (line + segment.text.count '\n') rest).diagnostics,
        d.error ≠ .unterminatedString ∧ d.error ≠ .unterminatedComment := by
      intro d member
      refine clean d ?_
      unfold ofSegments add
      dsimp only
      split <;> first | exact member | exact List.mem_cons_of_mem _ member
    intro other member
    rcases List.mem_cons.mp member with rfl | member
    · constructor
      · intro openString
        refine (clean (.onLine (line + other.text.count '\n') .unterminatedString) ?_).1 rfl
        rw [ofSegments, openString]
        exact List.mem_cons_self
      · intro openComment
        refine (clean (.onLine (line + other.text.count '\n') .unterminatedComment) ?_).2 rfl
        rw [ofSegments, openComment]
        exact List.mem_cons_self
    · exact ih behind other member

end Scan

def lineFeeds (source : String) : Nat :=
  source.toList.count '\n'

/-- The scan of two texts with a line feed between them. -/
theorem scan_lineFeed (first second : String)
    (closed : ∀ d ∈ (scan first).diagnostics, d.error ≠ .unterminatedString ∧ d.error ≠ .unterminatedComment) :
    scan (first ++ "\n" ++ second) =
      (scan first).join ((scan second).relabel (.lines (· + (1 + lineFeeds first)))) := by
  have text : (first ++ "\n" ++ second).toList = first.toList ++ '\n' :: second.toList := by
    simp [String.toList_append]
  have split := segmentsFrom_lineFeed second.toList (Nat.zero_le _) (Scan.closed_of_clean closed)
  have blank : Scan.ofSegments (1 + lineFeeds first) (⟨.blank, ['\n']⟩ :: segments second.toList) =
      Scan.ofSegments (1 + lineFeeds first + 1) (segments second.toList) := rfl
  have lines : 1 + lineFeeds first + 1 = 1 + (1 + lineFeeds first) := by omega
  unfold scan segments at *
  rw [text, split, Scan.ofSegments_append, flatMap_segmentsFrom, List.drop_zero]
  change (Scan.ofSegments 1 (segments first.toList)).join (Scan.ofSegments (1 + lineFeeds first) _) = _
  rw [blank, lines, Scan.ofSegments_down]
  rfl

theorem scan_getLast? (source : String) :
    (scan source).tokens.getLast? = some ⟨.endOfInput, 1 + lineFeeds source⟩ := by
  unfold scan lineFeeds
  rw [Scan.ofSegments_getLast?, flatMap_segments]

/-- Other lines change nothing else of a token or an error. -/
theorem Scan.relabel_lines (f : Nat → Nat) (scanned : Scan) :
    scanned.relabel (.lines f) = ⟨scanned.tokens.map fun l => { l with line := f l.line },
      scanned.diagnostics.map fun d => { d with line := f d.line }⟩ := by
  have token (l : Located) : l.relabel (.lines f) = { l with line := f l.line } :=
    congrArg (Located.mk · (f l.line)) (l.token.relabel_kept fun _ => rfl)
  have diagnostic (d : Diagnostic) : d.relabel (.lines f) = { d with line := f d.line } := by
    have place : d.token?.map (Token.relabel (.lines f)) = d.token? := by
      cases d.token? with
      | none => rfl
      | some t => exact congrArg some (t.relabel_kept fun _ => rfl)
    have error : d.error.relabel (.lines f) = d.error := d.error.relabel_kept fun _ => rfl
    rw [Diagnostic.relabel, place, error]
    rfl
  rw [relabel, funext token, funext diagnostic]

/-- Scanning distributes over a line feed. Behind a text that leaves no string and no comment open, a line
feed and another text give the tokens and the errors of the other text, further down by the lines of the
first one. They follow those of the first one, without the end of the input that stood behind it. -/
theorem scan_distributes (first second : String)
    (closed : ∀ d ∈ (scan first).diagnostics, d.error ≠ .unterminatedString ∧ d.error ≠ .unterminatedComment) :
    let whole := scan (first ++ "\n" ++ second)
    let down := 1 + lineFeeds first
    (scan first).tokens.getLast? = some ⟨.endOfInput, down⟩ ∧
    whole.tokens = (scan first).tokens.dropLast ++
      (scan second).tokens.map (fun l => { l with line := l.line + down }) ∧
    whole.diagnostics = (scan first).diagnostics ++
      (scan second).diagnostics.map fun d => { d with line := d.line + down } := by
  intro whole down
  have joined : whole = (scan first).join ((scan second).relabel (.lines (· + down))) :=
    scan_lineFeed first second closed
  rw [Scan.relabel_lines] at joined
  exact ⟨scan_getLast? first, congrArg Scan.tokens joined, congrArg Scan.diagnostics joined⟩

theorem scan_distributes_stray :
    let first := "1.\n# /* /* */ */ \"a\n\" <"
    let second := "= // x\n@ \"b"
    (∀ d ∈ (scan first).diagnostics, d.error ≠ .unterminatedString ∧ d.error ≠ .unterminatedComment) ∧
    (scan (first ++ "\n" ++ second)).tokens =
      [⟨.number 1, 1⟩, ⟨.mark .dot, 1⟩, ⟨.string "a\n", 3⟩, ⟨.mark .less, 3⟩, ⟨.mark .equal, 4⟩,
       ⟨.endOfInput, 5⟩] ∧
    (scan (first ++ "\n" ++ second)).diagnostics =
      [.onLine 2 (.badCharacter '#'), .onLine 5 (.badCharacter '@'), .onLine 5 .unterminatedString] := by
  intro first second
  have closed : ∀ d ∈ (scan first).diagnostics,
      d.error ≠ .unterminatedString ∧ d.error ≠ .unterminatedComment := by decide +kernel
  obtain ⟨-, tokens, diagnostics⟩ := scan_distributes first second closed
  exact ⟨closed, tokens.trans (by decide +kernel), diagnostics.trans (by decide +kernel)⟩

end Lox
