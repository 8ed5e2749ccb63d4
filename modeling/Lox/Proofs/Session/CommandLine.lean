import Lox.Proofs.Session.Persistence
import Lox.Proofs.Session.Traceless
import Lox.Shell

/-!
The command line and its session. The shell takes its texts through one session, a step for each: files in their
order as far as the first one that fails or cannot be read, or else the lines of its input, whether steps fail or
not, as far as the first one that cannot be read. What it writes is what the session answers; which texts, messages
and exit codes are to be seen is said here by the answers alone and not by what the shell makes of them.
-/

namespace Lox

open Session

/-! ### Answers as the shell shows them -/

namespace Session.Answer

/-- How the text of a step ended. -/
def outcome : Answer → Outcome
  | .ran outcome _ => outcome
  | .shown (.ok _) => .finished
  | .shown (.error diagnostics) => .rejected diagnostics

/-- The output of a step: what its text printed, or the Polish form of it. -/
def stdout : Answer → ByteArray
  | .ran _ printed => printed
  | .shown (.ok text) => text.toUTF8
  | .shown (.error _) => .empty

/-- What is said about a step that failed, and the exit code for it. -/
def failure? (answer : Answer) : Option (String × Nat) :=
  match answer.outcome with
  | .finished => none
  | .rejected diagnostics => some ("\n".intercalate (diagnostics.map Diagnostic.render) ++ "\n", 65)
  | .faulted fault =>
    some ("runtime error: [line " ++ toString fault.line ++ "] " ++ fault.error.message ++ "\n", 70)
  | .starved => some ("runtime error: depth used up\n", 70)

def fails (answer : Answer) : Bool :=
  answer.failure?.isSome

/-- The shell says it with the message of the outcome and a line feed. -/
theorem failure?_outcome (answer : Answer) :
    answer.failure? =
      answer.outcome.message?.map fun message => (message ++ "\n", answer.outcome.exitCode) := by
  unfold failure?
  cases answer.outcome <;> rfl

end Session.Answer

namespace Shell

/-! ### Inputs -/

/-- What the shell asks of its session for a text. -/
def step (n : Nat) (printAst : Bool) (source : String) : Step :=
  if printAst then .dump source else .eval n source

/-- What is read of a file: the text that its bytes are in UTF-8, or what is said if there is none. -/
inductive ReadsFile (file : SourceFile) : Except String String → Prop
  | text (source : String) : file.contents? = some source.toUTF8 → ReadsFile file (.ok source)
  | notUtf8 (bytes : ByteArray) : file.contents? = some bytes → (∀ source : String, source.toUTF8 ≠ bytes) →
    ReadsFile file (.error ("Error: failed to read " ++ file.name ++ "\n\nCaused by:\n    " ++
      "stream did not contain valid UTF-8" ++ "\n"))
  | missing : file.contents? = none →
    ReadsFile file (.error ("Error: failed to read " ++ file.name ++ "\n\nCaused by:\n    " ++
      "No such file or directory (os error 2)" ++ "\n"))

/-- What is read of a line: the text that its bytes are in UTF-8, or what is said if there is none. -/
inductive ReadsLine (line : List UInt8) : Except String String → Prop
  | text (source : String) : source.toUTF8 = ⟨line.toArray⟩ → ReadsLine line (.ok source)
  | notUtf8 : (∀ source : String, source.toUTF8 ≠ ⟨line.toArray⟩) →
    ReadsLine line (.error "Error: stream did not contain valid UTF-8\n")

/-- The texts in front of the first input that cannot be read. -/
def texts : List (Except String String) → List String
  | .ok source :: inputs => source :: texts inputs
  | _ => []

/-- What is said about the first input that cannot be read. -/
def unread? (inputs : List (Except String String)) : Option String :=
  inputs.findSome? fun
    | .ok _ => none
    | .error message => some message

/-- What one session answers that steps through the texts of some inputs. -/
def answers (n : Nat) (printAst : Bool) (s : Session) (inputs : List (Except String String)) : List Answer :=
  s.answers ((texts inputs).map (step n printAst))

/-- An input in lines. Each of them goes as far as its line feed; a rest without one is a line too. -/
inductive InLines : List UInt8 → List (List UInt8) → Prop
  | empty : InLines [] []
  | rest (line : List UInt8) : line ≠ [] → 10 ∉ line → InLines line [line]
  | line (front : List UInt8) {input : List UInt8} {parts : List (List UInt8)} :
    10 ∉ front → InLines input parts → InLines (front ++ 10 :: input) ((front ++ [10]) :: parts)

/-! ### Results -/

/-- Some bytes one after the other. -/
def joined (parts : List ByteArray) : ByteArray :=
  parts.foldr (· ++ ·) .empty

/-- What is to be seen of answers up to and with the first failing one. Without one the shell ends at an input
that cannot be read, or well. -/
def untilFailure (answers : List Answer) (unread? : Option String) : ShellResult :=
  let shown := answers.takeWhile (!·.fails) ++ (answers.find? (·.fails)).toList
  let ending := ((answers.findSome? Answer.failure?).or (unread?.map (·, 1))).getD ("", 0)
  ⟨joined (shown.map Answer.stdout), ending.1, ending.2⟩

/-- What is to be seen of answers, failing or not, each behind a prompt, and of a last prompt. -/
def throughout (answers : List Answer) (unread? : Option String) : ShellResult :=
  ⟨joined (answers.map fun answer => "> ".toUTF8 ++ answer.stdout) ++ "> ".toUTF8,
    String.join (answers.filterMap fun answer => answer.failure?.map Prod.fst) ++ unread?.getD "",
    if unread?.isSome then 1 else 0⟩

theorem joined_cons (part : ByteArray) (parts : List ByteArray) : joined (part :: parts) = part ++ joined parts :=
  rfl

theorem untilFailure_cons (answer : Answer) (answers : List Answer) (unread? : Option String) :
    untilFailure (answer :: answers) unread? =
      match answer.failure? with
      | none => (untilFailure answers unread?).after answer.stdout ""
      | some (message, exit) => ⟨answer.stdout, message, exit⟩ := by
  cases failure : answer.failure? with
  | none => simp [untilFailure, Answer.fails, failure, joined_cons, ShellResult.after]
  | some ending => simp [untilFailure, Answer.fails, failure, joined]

theorem throughout_cons (answer : Answer) (answers : List Answer) (unread? : Option String) :
    throughout (answer :: answers) unread? =
      (throughout answers unread?).after ("> ".toUTF8 ++ answer.stdout) ((answer.failure?.map Prod.fst).getD "") := by
  cases failure : answer.failure? <;>
    simp [throughout, failure, joined_cons, ShellResult.after, ByteArray.append_assoc, String.append_assoc]

/-! ### Texts -/

/-- Bytes are a text if they are what the text is in UTF-8. -/
theorem decodeText_iff (bytes : ByteArray) (source : String) :
    decodeText bytes = .ok source ↔ source.toUTF8 = bytes := by
  unfold decodeText String.fromUTF8?
  constructor
  · intro decoded
    split at decoded
    · next found =>
      obtain ⟨valid, same⟩ := Option.dite_none_right_eq_some.mp found
      obtain rfl := Except.ok.inj decoded
      obtain rfl := Option.some.inj same
      rfl
    · cases decoded
  · rintro rfl
    rw [String.toUTF8_eq_toByteArray, dif_pos source.isValidUTF8]
    rfl

theorem decodeText_notUtf8 {bytes : ByteArray} (noText : ∀ source : String, source.toUTF8 ≠ bytes) :
    decodeText bytes = .error .notUtf8 := by
  have decoded := decodeText_iff bytes
  unfold decodeText at decoded ⊢
  split
  · next source found => exact absurd ((decoded source).mp (by rw [found])) (noText source)
  · rfl

theorem decodeText_cases (bytes : ByteArray) :
    (∃ source : String, source.toUTF8 = bytes ∧ decodeText bytes = .ok source) ∨
      (∀ source : String, source.toUTF8 ≠ bytes) ∧ decodeText bytes = .error .notUtf8 := by
  by_cases text : ∃ source : String, source.toUTF8 = bytes
  · obtain ⟨source, same⟩ := text
    exact .inl ⟨source, same, (decodeText_iff bytes source).mpr same⟩
  · have noText := not_exists.mp text
    exact .inr ⟨noText, decodeText_notUtf8 noText⟩

/-- What the shell reads of a file. -/
def ofFile (file : SourceFile) : Except String String :=
  file.text.mapError (unreadableFile file.name)

/-- What the shell reads of a line. -/
def ofLine (line : List UInt8) : Except String String :=
  (decodeText ⟨line.toArray⟩).mapError unreadableLine

/-- A file is read in one way. -/
theorem readsFile_iff (file : SourceFile) (input : Except String String) :
    ReadsFile file input ↔ ofFile file = input := by
  unfold ofFile SourceFile.text
  constructor
  · intro reads
    cases reads with
    | text source contents => simp only [contents, (decodeText_iff _ source).mpr, Except.mapError]
    | notUtf8 bytes contents noText =>
      simp only [contents, decodeText_notUtf8 noText, Except.mapError]
      rfl
    | missing contents =>
      simp only [contents, Except.mapError]
      rfl
  · rintro rfl
    cases contents : file.contents? with
    | none => exact .missing contents
    | some bytes =>
      obtain ⟨source, rfl, decoded⟩ | ⟨noText, decoded⟩ := decodeText_cases bytes
      · simp only [decoded]
        exact .text source contents
      · simp only [decoded]
        exact .notUtf8 bytes contents noText

/-- A line is read in one way. -/
theorem readsLine_iff (line : List UInt8) (input : Except String String) :
    ReadsLine line input ↔ ofLine line = input := by
  unfold ofLine
  constructor
  · intro reads
    cases reads with
    | text source same => rw [(decodeText_iff _ source).mpr same, Except.mapError]
    | notUtf8 noText =>
      rw [decodeText_notUtf8 noText, Except.mapError]
      rfl
  · rintro rfl
    obtain ⟨source, same, decoded⟩ | ⟨noText, decoded⟩ := decodeText_cases ⟨line.toArray⟩
    · rw [decoded]
      exact .text source same
    · rw [decoded]
      exact .notUtf8 noText

/-- Where each part can be taken in one way only, all of them can. -/
theorem forall₂_iff_map {α β : Type} {R : α → β → Prop} {f : α → β} (one : ∀ a b, R a b ↔ f a = b) (l : List α)
    (u : List β) : List.Forall₂ R l u ↔ u = l.map f := by
  obtain rfl : R = fun a b => f a = b := funext₂ fun a b => propext (one a b)
  rw [← List.forall₂_map_left_iff, List.forall₂_eq_eq_eq]
  exact eq_comm

/-- A text goes through a session as a step does. -/
theorem runText_step (n : Nat) (printAst : Bool) (s : Session) (source : String) :
    runText n printAst s source =
      (((step n printAst source).answer s).stdout, ((step n printAst source).answer s).outcome,
        (step n printAst source).apply s) := by
  unfold runText step
  cases printAst with
  | false => rfl
  | true =>
    simp only [if_true, Step.answer, Step.apply]
    rcases shown : s.dump source with ⟨text | diagnostics, next⟩ <;> rfl

/-! ### Files -/

/-- The first file is a step, or it cannot be read. -/
theorem runFiles_cons (n : Nat) (printAst : Bool) (s : Session) (file : SourceFile) (files : List SourceFile) :
    runFiles n printAst s (file :: files) =
      match ofFile file with
      | .error message => ⟨.empty, message, 1⟩
      | .ok source =>
        let answer := (step n printAst source).answer s
        match answer.failure? with
        | none => (runFiles n printAst ((step n printAst source).apply s) files).after answer.stdout ""
        | some (message, exit) => ⟨answer.stdout, message, exit⟩ := by
  unfold ofFile
  cases text : file.text with
  | error error => simp only [runFiles, text, Except.mapError]
  | ok source =>
    simp only [runFiles, text, Except.mapError, runText_step, Answer.failure?_outcome]
    cases ((step n printAst source).answer s).outcome.message? <;> rfl

theorem runFiles_follows (n : Nat) (printAst : Bool) (s : Session) (files : List SourceFile) :
    runFiles n printAst s files =
      untilFailure (answers n printAst s (files.map ofFile)) (unread? (files.map ofFile)) := by
  induction files generalizing s with
  | nil => rfl
  | cons file files ih =>
    rw [runFiles_cons, List.map_cons]
    cases ofFile file with
    | error message => rfl
    | ok source =>
      refine Eq.trans ?_ (untilFailure_cons _ _ (unread? (files.map ofFile))).symm
      simp only [ih]
      rfl

/-- Files behind one that fails or cannot be read are not looked at. -/
theorem runFiles_append (n : Nat) (printAst : Bool) (s : Session) (files later : List SourceFile) :
    (runFiles n printAst s files).exit = 0 ∨
      runFiles n printAst s (files ++ later) = runFiles n printAst s files := by
  induction files generalizing s with
  | nil => exact .inl rfl
  | cons file files ih =>
    rw [List.cons_append, runFiles_cons, runFiles_cons]
    cases ofFile file with
    | error message => exact .inr rfl
    | ok source =>
      dsimp only
      cases ((step n printAst source).answer s).failure? with
      | some failure => exact .inr rfl
      | none => exact (ih _).imp id (congrArg (ShellResult.after _ ""))

/-! ### Lines -/

theorem lines_feed (front input : List UInt8) (within : 10 ∉ front) :
    lines (front ++ 10 :: input) = (front ++ [10]) :: lines input := by
  induction front with
  | nil => rfl
  | cons b front ih =>
    obtain ⟨apart, within⟩ : ¬ 10 = b ∧ 10 ∉ front := by simpa using within
    rw [List.cons_append, lines, if_neg (Ne.symm apart), ih within]
    rfl

theorem lines_rest (line : List UInt8) (nonempty : line ≠ []) (within : 10 ∉ line) : lines line = [line] := by
  induction line with
  | nil => exact absurd rfl nonempty
  | cons b line ih =>
    obtain ⟨apart, within⟩ : ¬ 10 = b ∧ 10 ∉ line := by simpa using within
    rw [lines, if_neg (Ne.symm apart)]
    cases line with
    | nil => rfl
    | cons c line => rw [ih (List.cons_ne_nil _ _) within]

theorem inLines_lines (input : List UInt8) : InLines input (lines input) := by
  induction input with
  | nil => exact .empty
  | cons b input ih =>
    rw [lines]
    split
    · next feed => exact feed ▸ .line [] List.not_mem_nil ih
    · next other =>
      generalize lines input = parts at ih ⊢
      cases ih with
      | empty => exact .rest [b] (List.cons_ne_nil _ _) (by simpa using Ne.symm other)
      | rest _ _ within => exact .rest (b :: input) (List.cons_ne_nil _ _) (by simpa [within] using Ne.symm other)
      | line front within ih => exact .line (b :: front) (by simpa [within] using Ne.symm other) ih

/-- An input is in lines in one way. -/
theorem inLines_iff (input : List UInt8) (parts : List (List UInt8)) : InLines input parts ↔ parts = lines input := by
  constructor
  · intro parted
    induction parted with
    | empty => rfl
    | rest line nonempty within => exact (lines_rest line nonempty within).symm
    | line front within _ ih => rw [lines_feed front _ within, ih]
  · rintro rfl
    exact inLines_lines input

theorem runLines_follows (n : Nat) (printAst : Bool) (s : Session) (parts : List (List UInt8)) :
    runLines n printAst s (parts.map fun line => ⟨line.toArray⟩) =
      throughout (answers n printAst s (parts.map ofLine)) (unread? (parts.map ofLine)) := by
  induction parts generalizing s with
  | nil => rfl
  | cons line parts ih =>
    rw [List.map_cons, List.map_cons, runLines, runLine, ofLine]
    cases decodeText ⟨line.toArray⟩ with
    | error error => simp [answers, texts, Session.answers, unread?, throughout, joined, prompt, Except.map,
        Except.mapError]
    | ok source =>
      refine Eq.trans ?_ (throughout_cons _ _ (unread? (parts.map ofLine))).symm
      simp only [Except.map, runText_step, ih, Answer.failure?_outcome]
      cases ((step n printAst source).answer s).outcome.message? <;> rfl

/-! ### Output -/

/-- The output of a text that runs is what the output of its session has more behind it than in front of it. -/
theorem eval_written (limit? : Option Nat) (before : List Step) (n : Nat) (source : String) :
    (after limit? (before ++ [.eval n source])).machine.output.written =
      (after limit? before).machine.output.written ++
        (Step.answer (after limit? before) (.eval n source)).stdout := by
  obtain ⟨more, written⟩ := (step_grows limit? before (.eval n source)).output
  rw [after_append] at written ⊢
  rw [written]
  refine congrArg _ (Eq.symm ?_)
  change (Step.apply (after limit? before) (.eval n source)).machine.output.since
    (after limit? before).machine.output.written.size = more
  rw [Output.since, written]
  exact ByteArray.extract_append_eq_right rfl ByteArray.size_append

/-- With files the shell shows what one session answers that steps through what is read of them, up to and with the
first failure; later files do nothing behind one that fails or cannot be read. Without files it shows, each behind a
prompt, all answers of one session that steps through what is read of the lines of its input, whichever of them fail,
as far as a line that cannot be read. Files and lines are read in one way only. The outputs of texts that run are what
their session has written, one after the other. -/
theorem follows_session (n : Nat) (printAst : Bool) :
    (∀ (first : SourceFile) (others : List SourceFile) (stdin : List UInt8), ∃ inputs,
      (∀ inputs', List.Forall₂ ReadsFile (first :: others) inputs' ↔ inputs' = inputs) ∧
      run n printAst (first :: others) stdin =
        untilFailure (answers n printAst (.start none) inputs) (unread? inputs) ∧
      ((run n printAst (first :: others) stdin).exit = 0 ∨ ∀ later,
        run n printAst (first :: others ++ later) stdin = run n printAst (first :: others) stdin)) ∧
    (∀ stdin : List UInt8, ∃ parts inputs,
      (∀ parts', InLines stdin parts' ↔ parts' = parts) ∧
      (∀ inputs', List.Forall₂ ReadsLine parts inputs' ↔ inputs' = inputs) ∧
      run n printAst [] stdin = throughout (answers n printAst (.start none) inputs) (unread? inputs)) ∧
    ∀ (before : List Step) (source : String),
      (after none (before ++ [.eval n source])).machine.output.written =
        (after none before).machine.output.written ++ (Step.answer (after none before) (.eval n source)).stdout := by
  refine ⟨fun first others stdin => ?_, fun stdin => ?_, fun before source => eval_written none before n source⟩
  · refine ⟨_, forall₂_iff_map readsFile_iff _, runFiles_follows n printAst _ (first :: others), ?_⟩
    exact or_iff_not_imp_left.mpr fun failed later =>
      (runFiles_append n printAst _ (first :: others) later).resolve_left failed
  · exact ⟨_, _, inLines_iff stdin, forall₂_iff_map readsLine_iff _, runLines_follows n printAst _ (lines stdin)⟩

example :
    let shown := run 9 false
      [⟨"a", some "print nil;".toUTF8⟩, ⟨"b", some "print true; nil();".toUTF8⟩, ⟨"c", none⟩] []
    shown.stdout = "nil\ntrue\n".toUTF8 ∧ shown.exit = 70 ∧
      shown.stderr = "runtime error: [line 1] can only call functions and classes\n" := by
  decide +kernel

example :
    let shown := run 9 true [] ("print nil;\nprint ;\nnil;\n".toUTF8.toList ++ [255, 10, 10])
    shown.stdout = "> (print nil)\n> > (; nil)\n> ".toUTF8 ∧ shown.exit = 1 ∧
      shown.stderr = "[line 1] error at ';': expected expression\nError: stream did not contain valid UTF-8\n" := by
  decide +kernel

end Shell

end Lox
