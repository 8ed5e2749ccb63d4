import Lox.Proofs.Syntax.Alongside
import Lox.Proofs.Syntax.Continuation

/-!
A statement with an error in it does not disturb the statements around it, if it is simple enough: no
declaration of a class or a function, no block and no control flow, and no keyword inside it that starts a
statement. Wherever in it the error is found, recovery finds its semicolon, so a declaration is read up to
exactly that, whether it is kept or dropped, and in the same way whatever comes behind.
-/

namespace Lox

open Parse

variable {α β : Type} {c d next : Cursor} {n m : Nat} {token : Token} {t u : List Located}

/-! ### Simple statements -/

/-- Tokens that start a statement with other statements in it, or that continue one. -/
def Token.nests : Token → Bool
  | .keyword .classWord | .keyword .funWord | .keyword .forWord | .keyword .ifWord | .keyword .whileWord
  | .keyword .elseWord | .mark .leftCurly => true
  | _ => false

/-- Tokens that recovery passes on its way to a semicolon. -/
def Token.Passed (token : Token) : Prop :=
  token ≠ .mark .semicolon ∧ token ≠ .endOfInput ∧ token.startsStatement = false

/-- Tokens up to the only semicolon among them, none of which starts a statement but the first, and that not one
with other statements in it. -/
structure Chunk (ls : List Located) : Prop where
  ended : ∃ body semicolon, ls = body ++ [semicolon] ∧ semicolon.token = .mark .semicolon ∧
    ∀ l ∈ body, l.token ≠ .mark .semicolon
  inside : ∀ l ∈ ls, l.token ≠ .endOfInput
  first : ∀ l ∈ ls.head?, l.token.nests = false
  later : ∀ l ∈ ls.tail, l.token.startsStatement = false

/-- The same place in front of a semicolon, with different tokens behind that. -/
structure Cursor.Beside (t u : List Located) (c d : Cursor) : Prop where
  same : d = { c with rest := d.rest }
  tokens : ∃ body semicolon, c.rest = body ++ semicolon :: t ∧ d.rest = body ++ semicolon :: u ∧
    semicolon.token = .mark .semicolon ∧ ∀ l ∈ body, l.token.Passed

/-- The same place behind that semicolon. -/
structure Cursor.Beyond (t u : List Located) (c d : Cursor) : Prop where
  same : d = { c with rest := u }
  rest : c.rest = t

namespace Cursor

theorem advance_cons {l : Located} {ls : List Located} (rest : c.rest = l :: ls) (inside : l.token ≠ .endOfInput) :
    c.advance = { c with rest := ls } := by
  have here : c.here = l := by rw [Cursor.here, rest]; rfl
  rw [advance, here, if_neg inside, rest]
  rfl

theorem Beside.here (beside : Beside t u c d) : d.here = c.here := by
  obtain ⟨body, semicolon, rest, rest', -, -⟩ := beside.tokens
  rw [Cursor.here, Cursor.here, rest, rest']
  cases body <;> rfl

theorem Beside.advance (beside : Beside t u c d) (other : c.here.token ≠ .mark .semicolon) :
    Beside t u c.advance d.advance := by
  obtain ⟨same, body, semicolon, rest, rest', ends, passed⟩ := beside
  cases body with
  | nil =>
    refine absurd ?_ other
    rw [Cursor.here, rest]
    exact ends
  | cons l body =>
    obtain ⟨⟨-, inside, -⟩, passed⟩ := List.forall_mem_cons.mp passed
    rw [advance_cons rest inside, advance_cons rest' inside]
    exact ⟨by rw [same], body, semicolon, rfl, rfl, ends, passed⟩

theorem Beside.close (beside : Beside t u c d) (closes : c.here.token = .mark .semicolon) :
    Beyond t u c.advance d.advance := by
  obtain ⟨same, body, semicolon, rest, rest', ends, passed⟩ := beside
  cases body with
  | nil =>
    have inside : semicolon.token ≠ .endOfInput := by
      rw [ends]
      exact Token.noConfusion
    rw [advance_cons rest inside, advance_cons rest' inside]
    exact ⟨by rw [same], rfl⟩
  | cons l body =>
    refine absurd ?_ (List.forall_mem_cons.mp passed).1.1
    rw [Cursor.here, rest] at closes
    exact closes

theorem Beside.report (beside : Beside t u c d) (e : Diagnostic) : Beside t u (c.report e) (d.report e) := by
  obtain ⟨same, tokens⟩ := beside
  refine ⟨?_, tokens⟩
  rw [same]
  rfl

theorem joins_ne_semicolon (joins : token.joins = true) : token ≠ .mark .semicolon := by
  rintro rfl
  cases joins

theorem beside_alike : Alike (Beside t u) where
  here beside := beside.here
  nextId beside := by rw [beside.same]
  advance beside joins := beside.advance (joins_ne_semicolon joins)
  fresh {c d} beside := ⟨by rw [beside.same], beside.tokens⟩
  report l beside := beside.report _

end Cursor

theorem nextStatement_semicolon (ts : List Located) : nextStatement (.mark .semicolon) ts = ts := by
  cases ts with
  | nil => rfl
  | cons l ts => rw [nextStatement, if_pos (by simp)]

theorem nextStatement_passed {last : Token} {body : List Located} {semicolon : Located}
    (other : last ≠ .mark .semicolon) (passed : ∀ l ∈ body, l.token.Passed)
    (ends : semicolon.token = .mark .semicolon) : nextStatement last (body ++ semicolon :: t) = t := by
  induction body generalizing last with
  | nil => rw [List.nil_append, nextStatement, if_neg (by simp [ends, other, Token.startsStatement]), ends,
      nextStatement_semicolon]
  | cons l body ih =>
    obtain ⟨⟨notSemicolon, inside, plain⟩, passed⟩ := List.forall_mem_cons.mp passed
    rw [List.cons_append, nextStatement, if_neg (by simp [inside, other, plain])]
    exact ih notSemicolon passed

theorem Cursor.synchronize_passed {body : List Located} {semicolon : Located} (rest : c.rest = body ++ semicolon :: t)
    (ends : semicolon.token = .mark .semicolon) (passed : ∀ l ∈ body, l.token.Passed) :
    c.synchronize = { c with rest := t } := by
  cases body with
  | nil =>
    have here : c.here = semicolon := by rw [Cursor.here, rest]; rfl
    have inside : semicolon.token ≠ .endOfInput := by
      rw [ends]
      exact Token.noConfusion
    rw [synchronize, advance_cons rest inside, here, ends, nextStatement_semicolon]
  | cons l body =>
    have here : c.here = l := by rw [Cursor.here, rest]; rfl
    obtain ⟨⟨other, inside, -⟩, passed⟩ := List.forall_mem_cons.mp passed
    have advanced : c.advance = { c with rest := body ++ semicolon :: t } := advance_cons rest inside
    rw [synchronize, advanced, here]
    exact congrArg (Cursor.mk · ..) (nextStatement_passed other passed ends)

/-- Recovery goes on behind the semicolon, wherever in front of it the error was found. -/
theorem Cursor.Beside.synchronize (beside : Beside t u c d) : Beyond t u c.synchronize d.synchronize := by
  obtain ⟨same, body, semicolon, rest, rest', ends, passed⟩ := beside
  rw [synchronize_passed rest ends passed, synchronize_passed rest' ends passed]
  exact ⟨by rw [same], rfl⟩

/-! ### Reading a simple statement -/

/-- The same place in front of a simple statement. If a keyword starts the statement, it is what lies behind the
keyword that is the same. -/
structure Cursor.Led (t u : List Located) (c d : Cursor) : Prop where
  here : d.here = c.here
  simple : c.here.token.nests = false
  word : c.here.token.startsStatement = true → Beside t u c.advance d.advance
  other : c.here.token.startsStatement = false → Beside t u c d

theorem Chunk.led {ls : List Located} (chunk : Chunk ls) (rest : c.rest = ls ++ t) :
    c.Led t u { c with rest := ls ++ u } := by
  obtain ⟨⟨body, semicolon, rfl, ends, semicolons⟩, inside, first, later⟩ := chunk
  rw [List.append_assoc] at rest
  cases body with
  | nil =>
    have here : c.here = semicolon := by rw [Cursor.here, rest]; rfl
    refine ⟨here ▸ rfl, by rw [here, ends]; rfl, fun starts => ?_, fun _ => ?_⟩
    · rw [here, ends] at starts
      cases starts
    · exact ⟨rfl, [], semicolon, rest, rfl, ends, List.forall_mem_nil _⟩
  | cons l body =>
    have here : c.here = l := by rw [Cursor.here, rest]; rfl
    have passed : ∀ l ∈ body, l.token.Passed := fun l member =>
      ⟨semicolons l (List.mem_cons_of_mem _ member),
        inside l (List.mem_append_left _ (List.mem_cons_of_mem _ member)),
        later l (List.mem_append_left _ member)⟩
    have started : l.token ≠ .endOfInput := inside l (List.mem_append_left _ List.mem_cons_self)
    refine ⟨here ▸ rfl, here ▸ first l rfl, fun _ => ?_, fun plain => ?_⟩
    · rw [Cursor.advance_cons rest started,
        Cursor.advance_cons (show _ = l :: (body ++ semicolon :: u) by simp) started]
      exact ⟨rfl, body, semicolon, rfl, rfl, ends, passed⟩
    · refine ⟨rfl, l :: body, semicolon, rest, by simp, ends, List.forall_mem_cons.mpr ⟨?_, passed⟩⟩
      exact ⟨semicolons l List.mem_cons_self, started, here ▸ plain⟩

section Readers

open Cursor

theorem closes_expect_semicolon :
    Alongside (Beside t u) (Beside t u) (Beyond t u) (expect (.mark .semicolon)) (expect (.mark .semicolon)) :=
  alongside_expect Beside.here Beside.close

theorem exprStmt_beside (le : n ≤ m) : Alongside (Beside t u) (Beside t u) (Beyond t u) (exprStmt n) (exprStmt m) :=
  ((exprs_alongside beside_alike le).exprAt _).bind fun _ => closes_expect_semicolon.bind fun _ => alongside_pure _

theorem varDecl_beside (le : n ≤ m) : Alongside (Beside t u) (Beside t u) (Beyond t u) (varDecl n) (varDecl m) := by
  refine beside_alike.identifier.bind fun _ => alongside_accept_bind Beside.here (beside_alike.step rfl) ?_ ?_
  · exact ((exprs_alongside beside_alike le).exprAt _).bind fun _ => closes_expect_semicolon.bind fun _ =>
      alongside_pure _
  · exact closes_expect_semicolon.bind fun _ => alongside_pure _

theorem optionalExpr_beside (le : n ≤ m) : Alongside (Beside t u) (Beside t u) (Beyond t u)
    (optionalExpr n (.mark .semicolon)) (optionalExpr m (.mark .semicolon)) := by
  refine alongside_accept_bind Beside.here Beside.close (alongside_pure _) ?_
  exact ((exprs_alongside beside_alike le).exprAt _).bind fun _ => closes_expect_semicolon.bind fun _ =>
    alongside_pure _

theorem Cursor.Led.step (starts : token.startsStatement = true) (led : Led t u c d) (here : c.here.token = token) :
    Beside t u c.advance d.advance :=
  led.word (here ▸ starts)

theorem led_take {f g : Located → Parse β} (starts : token.startsStatement = true)
    (second : ∀ l, Alongside (Beside t u) (Beside t u) (Beyond t u) (f l) (g l)) :
    AlongsideAt token (Beside t u) (Led t u) (Beyond t u) (take >>= f) (take >>= g) :=
  (alongsideAt_take Led.here (Led.step starts)).bind second

theorem led_no_nested {R S : Cursor → Cursor → Prop} {p q : Parse α} (nests : token.nests = true) :
    AlongsideAt token R (Led t u) S p q := by
  intro c d led here
  rw [← here, led.simple] at nests
  cases nests

/-- Of a jump keyword the depth is asked, which is the same in both places. -/
theorem takeJump_beside {depth : Parse Nat} {error : StaticError} (count : Cursor → Nat)
    (reads : ∀ c, depth c = .ok (count c) c) (same : ∀ c rest, count { c with rest := rest } = count c)
    (step : ∀ {c d}, Led t u c d → c.here.token = token → Beside t u c.advance d.advance) :
    AlongsideAt token (Beside t u) (Led t u) (Beside t u) (takeJump depth error) (takeJump depth error) := by
  refine (alongsideAt_take Led.here step).bind fun l => ?_
  have asked : Alongside (Beside t u) (Beside t u) (Beside t u) depth depth := by
    intro c d beside
    have counted : count d = count c := by
      rw [beside.same]
      exact same c d.rest
    rw [reads, reads, counted]
    exact .ok beside
  refine asked.bind fun found => ?_
  split
  · exact (alongside_report fun beside => beside.report _).bind fun _ => alongside_pure _
  · exact alongside_pure _

theorem Cursor.Led.jump (plain : token.startsStatement = false) (other : token ≠ .mark .semicolon)
    (led : Led t u c d) (here : c.here.token = token) : Beside t u c.advance d.advance :=
  (led.other (here ▸ plain)).advance (here ▸ other)

theorem beside_recover {p q : Parse α} (body : Alongside (Beside t u) (Led t u) (Beyond t u) p q) :
    Alongside (fun _ _ => False) (Led t u) (Beyond t u) (recover p) (recover q) := by
  intro c d led
  have met := body c d led
  unfold recover
  generalize p c = x at met
  generalize q d = y at met
  cases met with
  | ok beyond => exact .ok beyond
  | failed beside _ => exact .ok (beside.report _).synchronize
  | starved => exact .starved

/-- What starts a statement other than a declaration. -/
def Token.Undeclared (token : Token) : Prop :=
  token ≠ .keyword .classWord ∧ token ≠ .keyword .funWord ∧ token ≠ .keyword .varWord

theorem statement_beside (le : n ≤ m) (undeclared : token.Undeclared) :
    AlongsideAt token (Beside t u) (Led t u) (Beyond t u) (statement n) (statement m) := by
  cases n with
  | zero => exact alongside_starve.at_token
  | succ n =>
    obtain ⟨m, rfl⟩ := Nat.exists_eq_succ_of_ne_zero (Nat.ne_of_gt (Nat.zero_lt_of_lt le))
    have le := Nat.le_of_succ_le_succ le
    have exprs : ExprsAlongside (Beside t u) n m := exprs_alongside beside_alike le
    refine alongsideAt_peek Led.here ?_
    split
    · exact led_take rfl fun _ => (exprs.exprAt _).bind fun _ => (exprs.moreItems _ Beside.close).bind fun _ =>
        alongside_pure _
    · exact led_no_nested rfl
    · exact led_no_nested rfl
    · exact led_no_nested rfl
    · exact led_no_nested rfl
    · exact (takeJump_beside (·.loops) (fun _ => rfl) (fun _ _ => rfl) (Led.jump rfl (by simp))).bind fun _ =>
        closes_expect_semicolon.bind fun _ => alongside_pure _
    · exact (takeJump_beside (·.loops) (fun _ => rfl) (fun _ _ => rfl) (Led.jump rfl (by simp))).bind fun _ =>
        closes_expect_semicolon.bind fun _ => alongside_pure _
    · exact (takeJump_beside (·.functions) (fun _ => rfl) (fun _ _ => rfl) (Led.step rfl)).bind fun _ =>
        (optionalExpr_beside le).bind fun _ => alongside_pure _
    · next noPrint _ noIf noWhile noFor _ _ noReturn =>
      have plain : token.startsStatement = false := by
        unfold Token.startsStatement
        split
        · exact absurd rfl undeclared.1
        · exact absurd rfl undeclared.2.1
        · exact absurd rfl undeclared.2.2
        · exact absurd rfl noFor
        · exact absurd rfl noIf
        · exact absurd rfl noWhile
        · exact absurd rfl noPrint
        · exact absurd rfl noReturn
        · rfl
      exact fun c d led here => exprStmt_beside le c d (led.other (here ▸ plain))

/-- A declaration in front of a simple statement is read up to its semicolon, and in the same way whatever comes
behind. -/
theorem declaration_beside (le : n ≤ m) :
    Alongside (fun _ _ => False) (Led t u) (Beyond t u) (declaration n) (declaration m) := by
  cases n with
  | zero => exact alongside_starve
  | succ n =>
    obtain ⟨m, rfl⟩ := Nat.exists_eq_succ_of_ne_zero (Nat.ne_of_gt (Nat.zero_lt_of_lt le))
    have le := Nat.le_of_succ_le_succ le
    refine beside_recover (alongside_peek Led.here fun token => ?_)
    split
    · exact led_no_nested rfl
    · exact led_no_nested rfl
    · exact led_take rfl fun _ => varDecl_beside le
    · next noClass noFun noVar => exact statement_beside le ⟨noClass, noFun, noVar⟩

end Readers

/-! ### Whole programs -/

section Programs

variable {nextId : Nat} {ls before chunk behind : List Located}

theorem closed_open (inside : ∀ l ∈ ls, l.token ≠ .endOfInput) :
    ∃ stop, closed ls = ls ++ [stop] ∧ stop.token = .endOfInput := by
  unfold closed
  split
  · next none => exact ⟨_, by rw [List.getLast?_eq_none_iff.mp none]; rfl, rfl⟩
  · next last same =>
    rw [if_neg (inside last (List.mem_of_getLast? same))]
    exact ⟨_, rfl, rfl⟩

/-- Tokens up to an end, which is their own or that of the tokens in front of them. -/
def Closes (ls rest : List Located) : Prop :=
  rest = closed ls ∨ (ls = [] ∧ ∃ stop : Located, rest = [stop] ∧ stop.token = .endOfInput)

theorem closed_append (inside : ∀ l ∈ ls, l.token ≠ .endOfInput) (behind : List Located) :
    ∃ rest, closed (ls ++ behind) = ls ++ rest ∧ Closes behind rest := by
  by_cases none : behind = []
  · obtain ⟨stop, same, ends⟩ := closed_open inside
    exact ⟨[stop], by rw [none, List.append_nil, same], .inr ⟨none, stop, rfl, ends⟩⟩
  · refine ⟨closed behind, ?_, .inl rfl⟩
    unfold closed
    rw [List.getLast?_append_of_ne_nil _ none, List.getLast?_eq_some_getLast none]
    dsimp only
    split
    · rfl
    · rw [List.append_assoc]

/-- What is reported does not depend on the ids. -/
theorem parse_diagnostics (i j : Nat) (tokens : List Located) :
    (parse i tokens).diagnostics = (parse j tokens).diagnostics := by
  have shifted : ∀ count, (parse count tokens).diagnostics = (parse 0 tokens).diagnostics := by
    intro count
    by_cases some : tokens = []
    · subst some
      rfl
    · have names : (Relabeling.shift count).KeepsNames := fun _ => rfl
      have lines : ∀ line, (Relabeling.shift count).line line = line := fun _ => rfl
      have moved := parse_relabel (Relabeling.shift_counts count) 0 some
      rw [List.map_id'' (Located.relabel_kept names lines)] at moved
      have same := congrArg Parsed.diagnostics moved
      rw [Parsed.relabel, Diagnostic.map_relabel_kept names lines] at same
      rw [← same]
      exact congrArg (fun id => (parse id tokens).diagnostics) (Nat.zero_add count).symm
  rw [shifted i, shifted j]

/-- A declaration that is read in front of a simple statement ends exactly behind it. -/
theorem Chunk.declaration_ends (chunk : Chunk ls) (rest : c.rest = ls ++ t) (within : c.Within n) :
    ∃ s? next, declaration n c = .ok s? next ∧ next.rest = t := by
  have met := declaration_beside (Nat.le_refl n) c _ (chunk.led rest (u := t))
  have answered : declaration n c ≠ .starved := (stmts_answer n).declaration c (within.mono (Nat.le_succ n))
  generalize declaration n c = x at met answered
  generalize declaration n _ = y at met
  cases met with
  | @ok s? next _ beyond => exact ⟨s?, next, rfl, beyond.rest⟩
  | failed impossible _ => exact impossible.elim
  | starved => exact absurd rfl answered

theorem Chunk.starts (chunk : Chunk ls) (rest : c.rest = ls ++ t) :
    c.here.token ≠ .endOfInput ∧ c.here.token.nests = false := by
  have led := chunk.led rest (u := t)
  refine ⟨fun ends => ?_, led.simple⟩
  obtain ⟨body, semicolon, same, -⟩ := chunk.ended
  obtain ⟨l, body', split⟩ := List.exists_cons_of_ne_nil (l := ls) (by rw [same]; simp)
  rw [Cursor.here, rest, split] at ends
  exact chunk.inside l (by rw [split]; exact List.mem_cons_self) ends

theorem Chunk.apart (chunk : Chunk ls) (t : List Located) :
    ((ls ++ t).headD ⟨.endOfInput, 1⟩).token ≠ .keyword .elseWord := by
  intro same
  have nests := (chunk.starts (c := ⟨ls ++ t, 0, 0, 0, []⟩) rfl).2
  rw [Cursor.here, same] at nests
  cases nests

/-- A simple statement is read within a program as it is by itself. -/
theorem Chunk.declaration_eq (chunk : Chunk ls) (nextId : Nat) (t : List Located) (deep : depthFor ls ≤ n + 1) :
    ∃ s?, (parse nextId ls).program = s?.toList ∧
      declaration n ⟨ls ++ t, nextId, 0, 0, []⟩ =
        .ok s? ⟨t, (parse nextId ls).nextId, 0, 0, (parse nextId ls).diagnostics⟩ := by
  obtain ⟨stop, close, ends⟩ := closed_open chunk.inside
  have depth : depthFor ls = 32 * ls.length + 30 + 1 + 1 := by simp only [depthFor]; omega
  obtain ⟨statements, last, read⟩ := program_reads nextId ls
  have parsed : parse nextId ls = ⟨statements, last.diagnostics, last.nextId⟩ := by rw [parse, read]
  have inside := (chunk.starts (c := .start nextId ls) close).1
  rw [depth] at read deep
  obtain ⟨s?, middle, others, first, rest, rfl⟩ := (program_inside inside).mp read
  have moved := (stmts_move _).declaration.ok first
  have met := declaration_beside (t := [stop]) (u := t) (Nat.le_of_succ_le_succ deep) (.start nextId ls) _
    (chunk.led close)
  rw [first] at met
  change Reply.Meets _ _ _ (declaration n ⟨ls ++ t, nextId, 0, 0, []⟩) at met
  generalize declaration n ⟨ls ++ t, nextId, 0, 0, []⟩ = y at met
  cases met with
  | ok beyond =>
    have atEnd : middle.here.token = .endOfInput := by
      rw [Cursor.here, beyond.rest]
      exact ends
    rw [program_atEnd _ atEnd, Reply.ok.injEq] at rest
    obtain ⟨rfl, rfl⟩ := rest
    rw [parsed]
    refine ⟨s?, List.append_nil _, ?_⟩
    rw [beyond.same, show middle.loops = 0 from moved.loops, show middle.functions = 0 from moved.functions]

/-- A program that is read without a report is read so behind other reports too. -/
theorem program_behind {rest : List Located} (ds : List Diagnostic) (clean : (parse nextId ls).diagnostics = [])
    (closes : Closes ls rest) (deep : depthFor ls ≤ n) :
    ∃ last, program n ⟨rest, nextId, 0, 0, ds⟩ = .ok (parse nextId ls).program last ∧
      last.diagnostics = ds ∧ last.nextId = (parse nextId ls).nextId := by
  obtain ⟨last, read, clean, ids⟩ := parse_read clean
  rcases closes with rfl | ⟨rfl, stop, rfl, ends⟩
  · have met := (program_trails deep : Trails ds _ _) (.start nextId ls) _ rfl
    rw [read] at met
    change Reply.Meets _ _ _ (program n ⟨closed ls, nextId, 0, 0, ds ++ []⟩) at met
    rw [List.append_nil] at met
    generalize program n ⟨closed ls, nextId, 0, 0, ds⟩ = y at met
    cases met with
    | ok trails =>
      refine ⟨_, rfl, ?_, ?_⟩
      · rw [trails, clean, List.append_nil]
      · rw [trails, ids]
  · obtain ⟨n, rfl⟩ := Nat.exists_eq_succ_of_ne_zero (Nat.ne_of_gt (Nat.lt_of_lt_of_le (Nat.zero_lt_succ 31) deep))
    exact ⟨_, program_atEnd n ends, rfl, rfl⟩

/-- A simple statement and behind it a program that is free of errors. -/
theorem program_chunk {rest : List Located} (simple : Chunk chunk) (closes : Closes behind rest)
    (clean : (parse (parse nextId chunk).nextId behind).diagnostics = [])
    (deep : depthFor chunk + 32 * behind.length ≤ n) :
    ∃ last, program n ⟨chunk ++ rest, nextId, 0, 0, []⟩ =
        .ok ((parse nextId chunk).program ++ (parse (parse nextId chunk).nextId behind).program) last ∧
      last.diagnostics = (parse nextId chunk).diagnostics ∧
      last.nextId = (parse (parse nextId chunk).nextId behind).nextId := by
  have some : 0 < chunk.length := by
    obtain ⟨body, semicolon, same, -⟩ := simple.ended
    rw [same, List.length_append, List.length_singleton]
    exact Nat.succ_pos _
  simp only [depthFor] at deep
  obtain ⟨n, rfl⟩ := Nat.exists_eq_succ_of_ne_zero (n := n) (by omega)
  obtain ⟨s?, kept, first⟩ := simple.declaration_eq nextId rest (n := n) (by simp only [depthFor]; omega)
  obtain ⟨last, read, reported, ids⟩ := program_behind (parse nextId chunk).diagnostics (n := n) clean
    closes (by simp only [depthFor]; omega)
  have inside := (simple.starts (c := ⟨chunk ++ rest, nextId, 0, 0, []⟩) rfl).1
  exact ⟨last, (program_inside inside).mpr ⟨s?, _, _, first, read, by rw [kept]⟩, reported, ids⟩

/-- A program that is free of errors is read in front of a simple statement as it is read in front of its end, and
the depth that is left is enough for what comes behind. -/
theorem program_before {rest : List Located} (inside : ∀ l ∈ before, l.token ≠ .endOfInput) (simple : Chunk chunk)
    (clean : (parse nextId before).diagnostics = [])
    (whole : closed (before ++ (chunk ++ behind)) = before ++ (chunk ++ rest)) :
    ∃ n, depthFor chunk + 32 * behind.length ≤ n ∧
      ∀ {others last}, program n ⟨chunk ++ rest, (parse nextId before).nextId, 0, 0, []⟩ = .ok others last →
        program (depthFor (before ++ (chunk ++ behind))) (.start nextId (before ++ (chunk ++ behind))) =
          .ok ((parse nextId before).program ++ others) last := by
  obtain ⟨last, read, unreported, ids⟩ := parse_read clean
  obtain ⟨stop, close, ends⟩ := closed_open inside
  have extended : (Cursor.start nextId before).Extends (chunk ++ rest)
      (.start nextId (before ++ (chunk ++ behind))) :=
    ⟨⟨before, stop, close, whole, ends, inside⟩, rfl, rfl, rfl, rfl⟩
  obtain ⟨left, middle, reached, atEnd, used, further⟩ :=
    program_continues extended (simple.apart rest) (32 * (chunk.length + behind.length)) read unreported
  have moved := (program_moves _).ok read
  have here : middle = ⟨chunk ++ rest, (parse nextId before).nextId, 0, 0, []⟩ := by
    cases middle
    exact Cursor.mk.injEq .. ▸ ⟨reached.atEnd atEnd, reached.nextId.trans ids, reached.loops.trans moved.loops,
      reached.functions.trans moved.functions, reached.diagnostics.trans unreported⟩
  have depth : depthFor (before ++ (chunk ++ behind)) = depthFor before + 32 * (chunk.length + behind.length) := by
    simp only [depthFor, List.length_append]
    omega
  have length : (Cursor.start nextId before).rest.length = before.length + 1 := by
    rw [Cursor.start, close, List.length_append, List.length_singleton]
  refine ⟨left + 32 * (chunk.length + behind.length), ?_, fun read => ?_⟩
  · obtain ⟨body, stop', rest', -⟩ := reached.tokens
    rw [rest', length] at used
    simp only [depthFor, List.length_append, List.length_cons, List.length_nil] at used ⊢
    omega
  · rw [depth]
    exact further (here ▸ read)

/-- A simple statement between two programs that are free of errors disturbs neither of them, whether there is an
error in it or not: a declaration that is read in front of it ends exactly behind it, and the whole is read as the
one program, what is left of the statement, and the other program. Only errors of the statement are reported. -/
theorem chunk_isolated (nextId other : Nat) (before chunk behind : List Located)
    (inside : ∀ l ∈ before, l.token ≠ .endOfInput) (simple : Chunk chunk)
    (clean : (parse nextId before).diagnostics = []) (clean' : (parse other behind).diagnostics = []) :
    let first := parse nextId before
    let second := parse first.nextId chunk
    let third := parse second.nextId behind
    (∀ n c rest, c.rest = chunk ++ rest → c.Within n →
      ∃ s? next, declaration n c = .ok s? next ∧ next.rest = rest) ∧
    (∃ s? : Option Stmt, second.program = s?.toList) ∧
    parse nextId (before ++ (chunk ++ behind)) =
      ⟨first.program ++ second.program ++ third.program, second.diagnostics, third.nextId⟩ := by
  intro first second third
  obtain ⟨rest, whole, closes⟩ := closed_append (List.forall_mem_append.mpr ⟨inside, simple.inside⟩) behind
  rw [List.append_assoc, List.append_assoc] at whole
  obtain ⟨n, deep, further⟩ := program_before inside simple clean whole
  obtain ⟨last, read, reported, ids⟩ :=
    program_chunk simple closes ((parse_diagnostics _ other behind).trans clean') deep
  refine ⟨fun n c rest same within => simple.declaration_ends same within, ?_, ?_⟩
  · obtain ⟨s?, kept, -⟩ := simple.declaration_eq first.nextId [] (n := depthFor chunk) (Nat.le_succ _)
    exact ⟨s?, kept⟩
  · rw [parse, further read]
    simp only [reported, ids, List.append_assoc]
    rfl

/-- The tokens of `break } ( ;`. -/
def brokenBreak : List Located :=
  [⟨.keyword .breakWord, 2⟩, ⟨.mark .rightCurly, 2⟩, ⟨.mark .leftParen, 2⟩, ⟨.mark .semicolon, 2⟩]

theorem chunk_isolated_break :
    (∃ s? next, declaration 256 ⟨brokenBreak ++ [⟨.endOfInput, 2⟩], 0, 0, 0, []⟩ = .ok s? next ∧
      next.rest = [⟨.endOfInput, 2⟩]) ∧
    parse 0 ([⟨.keyword .printWord, 1⟩, ⟨.keyword .nilWord, 1⟩, ⟨.mark .semicolon, 1⟩] ++
        (brokenBreak ++ [⟨.keyword .printWord, 3⟩, ⟨.keyword .trueWord, 3⟩, ⟨.mark .semicolon, 3⟩])) =
      ⟨[.print [.literal .nil] 1, .print [.literal (.bool true)] 3],
        [.at ⟨.keyword .breakWord, 2⟩ .breakOutsideLoop,
          .at ⟨.mark .rightCurly, 2⟩ (.unexpectedToken (.mark .rightCurly) (.mark .semicolon))], 0⟩ := by
  have simple : Chunk brokenBreak :=
    ⟨⟨brokenBreak.dropLast, ⟨.mark .semicolon, 2⟩, rfl, rfl, by simp [brokenBreak]⟩, by simp [brokenBreak],
      by simp [brokenBreak, Token.nests], by simp [brokenBreak, Token.startsStatement]⟩
  obtain ⟨ends, -, whole⟩ := chunk_isolated 0 0
    [⟨.keyword .printWord, 1⟩, ⟨.keyword .nilWord, 1⟩, ⟨.mark .semicolon, 1⟩] brokenBreak
    [⟨.keyword .printWord, 3⟩, ⟨.keyword .trueWord, 3⟩, ⟨.mark .semicolon, 3⟩] (by simp) simple rfl rfl
  exact ⟨ends 256 _ _ rfl ⟨⟨⟨.endOfInput, 2⟩, by simp, rfl⟩, by decide⟩, whole⟩

end Programs

end Lox
