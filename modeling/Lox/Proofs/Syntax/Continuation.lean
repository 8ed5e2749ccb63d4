import Lox.Proofs.Syntax.Follow
import Lox.Proofs.Syntax.Natural

/-!
Reading on where the input ended. A reader that succeeds in front of the end of the input does not know
what comes behind its phrase: with other tokens in place of the end it reads the same phrase and stops in
front of them. Of whole statements that holds at the end itself too, if what comes does not start with
`else`. So tokens put together are read as the one program and behind it the other.
-/

namespace Lox

open Parse

variable {α β : Type} {c d next last : Cursor} {tail : List Located}

/-- The same place in front of other tokens, where `tail` stands for the end of the input. -/
structure Cursor.Extends (tail : List Located) (c d : Cursor) : Prop where
  tokens : ∃ body stop, c.rest = body ++ [stop] ∧ d.rest = body ++ tail ∧
    stop.token = .endOfInput ∧ ∀ l ∈ body, l.token ≠ .endOfInput
  nextId : d.nextId = c.nextId
  loops : d.loops = c.loops
  functions : d.functions = c.functions
  diagnostics : d.diagnostics = c.diagnostics

namespace Cursor

theorem Extends.inside (extended : c.Extends tail d) (inside : c.here.token ≠ .endOfInput) :
    d.here = c.here ∧ c.advance.Extends tail d.advance := by
  obtain ⟨⟨body, stop, rest, rest', stopped, before⟩, nextId, loops, functions, diagnostics⟩ := extended
  cases body with
  | nil =>
    refine absurd ?_ inside
    rw [here, rest]
    exact stopped
  | cons l body =>
    have same : d.here = c.here := by
      rw [here, here, rest, rest']
      rfl
    refine ⟨same, ?_⟩
    have inside' : d.here.token ≠ .endOfInput := same ▸ inside
    unfold advance
    rw [if_neg inside, if_neg inside', rest, rest']
    exact ⟨⟨body, stop, rfl, rfl, stopped, fun l member => before l (List.mem_cons_of_mem _ member)⟩,
      nextId, loops, functions, diagnostics⟩

theorem Extends.atEnd (extended : c.Extends tail d) (ends : c.here.token = .endOfInput) : d.rest = tail := by
  obtain ⟨body, stop, rest, rest', -, before⟩ := extended.tokens
  cases body with
  | nil => exact rest'
  | cons l body =>
    refine absurd ?_ (before l List.mem_cons_self)
    rw [here, rest] at ends
    exact ends

theorem Extends.nested (extended : c.Extends tail d) (loops functions : Nat) :
    { c with loops, functions }.Extends tail { d with loops, functions } :=
  ⟨extended.tokens, extended.nextId, rfl, rfl, extended.diagnostics⟩

theorem Onward.inside (moved : c.Onward next) (inside : next.here.token ≠ .endOfInput) :
    c.here.token ≠ .endOfInput := by
  obtain ⟨ls, split, before⟩ := moved.passed
  cases ls with
  | nil =>
    rw [here, split]
    exact inside
  | cons l ls =>
    rw [here, split]
    exact before l List.mem_cons_self

/-- A token other than the end is here in the one place if it is in the other, where it does not start what
is put in place of the end. -/
theorem Extends.here_iff {token : Token} (extended : c.Extends tail d) (plain : token ≠ .endOfInput)
    (other : c.here.token = .endOfInput → (tail.headD ⟨.endOfInput, 1⟩).token ≠ token) :
    d.here.token = token ↔ c.here.token = token := by
  by_cases ends : c.here.token = .endOfInput
  · have here : d.here.token ≠ token := by
      rw [here, extended.atEnd ends]
      exact other ends
    exact iff_of_false here fun same => plain (same ▸ ends)
  · rw [(extended.inside ends).1]

end Cursor

/-! ### Readers -/

/-- Where a reader succeeds in front of the end of the input and reports nothing, another one reads the same
phrase in front of other tokens. -/
structure Parse.Continues (tail : List Located) (p q : Parse α) : Prop where
  moves : p.Moves
  image : ∀ {c d a next}, c.Extends tail d → p c = .ok a next → next.diagnostics = [] →
    next.here.token ≠ .endOfInput → ∃ next', q d = .ok a next' ∧ next.Extends tail next'

/-- The same where the reader comes to the end of the input. -/
structure Parse.Steady (tail : List Located) (p q : Parse α) : Prop where
  moves : p.Moves
  image : ∀ {c d a next}, c.Extends tail d → p c = .ok a next → next.diagnostics = [] →
    ∃ next', q d = .ok a next' ∧ next.Extends tail next'

/-- The same of a reader that does not succeed at the end of the input. -/
structure Parse.Closes (tail : List Located) (p q : Parse α) : Prop extends Steady tail p q where
  inside : ∀ {c a next}, p c = .ok a next → next.diagnostics = [] → c.here.token ≠ .endOfInput

namespace Parse

variable {p q : Parse α} {f g : α → Parse β} {token : Token}

theorem Steady.continues (steady : Steady tail p q) : Continues tail p q :=
  ⟨steady.moves, fun extended read clean _ => steady.image extended read clean⟩

theorem Closes.continues (closes : Closes tail p q) : Continues tail p q :=
  closes.toSteady.continues

theorem Continues.bind (first : Continues tail p q) (second : ∀ a, Continues tail (f a) (g a)) :
    Continues tail (p >>= f) (q >>= g) where
  moves := first.moves.bind fun a => (second a).moves
  image extended read clean inside := by
    obtain ⟨a, middle, reads, behind⟩ := bind_eq_ok.mp read
    have moved := (second a).moves.ok behind
    obtain ⟨middle', reads', extended⟩ := first.image extended reads (moved.clean clean) (moved.inside inside)
    obtain ⟨next', behind', extended⟩ := (second a).image extended behind clean inside
    exact ⟨next', bind_eq_ok.mpr ⟨a, middle', reads', behind'⟩, extended⟩

theorem Steady.bind (first : Steady tail p q) (second : ∀ a, Steady tail (f a) (g a)) :
    Steady tail (p >>= f) (q >>= g) where
  moves := first.moves.bind fun a => (second a).moves
  image extended read clean := by
    obtain ⟨a, middle, reads, behind⟩ := bind_eq_ok.mp read
    obtain ⟨middle', reads', extended⟩ := first.image extended reads (((second a).moves.ok behind).clean clean)
    obtain ⟨next', behind', extended⟩ := (second a).image extended behind clean
    exact ⟨next', bind_eq_ok.mpr ⟨a, middle', reads', behind'⟩, extended⟩

theorem Closes.bind (first : Closes tail p q) (second : ∀ a, Steady tail (f a) (g a)) :
    Closes tail (p >>= f) (q >>= g) where
  toSteady := first.toSteady.bind second
  inside read clean := by
    obtain ⟨a, middle, reads, behind⟩ := bind_eq_ok.mp read
    exact first.inside reads (((second a).moves.ok behind).clean clean)

/-- What is not at the end behind its first part was not at the end before it. -/
theorem Continues.closes (first : Continues tail p q) (second : ∀ a, Closes tail (f a) (g a)) :
    Closes tail (p >>= f) (q >>= g) where
  moves := first.moves.bind fun a => (second a).moves
  image extended read clean := by
    obtain ⟨a, middle, reads, behind⟩ := bind_eq_ok.mp read
    have inside := (second a).inside behind clean
    obtain ⟨middle', reads', extended⟩ :=
      first.image extended reads (((second a).moves.ok behind).clean clean) inside
    obtain ⟨next', behind', extended⟩ := (second a).image extended behind clean
    exact ⟨next', bind_eq_ok.mpr ⟨a, middle', reads', behind'⟩, extended⟩
  inside read clean := by
    obtain ⟨a, middle, reads, behind⟩ := bind_eq_ok.mp read
    exact (first.moves.ok reads).inside ((second a).inside behind clean)

theorem steady_pure (a : α) : Steady tail (pure a) (pure a) where
  moves := moves_pure a
  image extended read _ := by
    obtain ⟨rfl, rfl⟩ := pure_eq_ok.mp read
    exact ⟨_, rfl, extended⟩

theorem continues_pure (a : α) : Continues tail (pure a) (pure a) :=
  (steady_pure a).continues

theorem closes_starve : Closes tail (starve : Parse α) q where
  moves := moves_starve
  image _ read := nomatch read
  inside read := nomatch read

theorem closes_fail (error : StaticError) : Closes tail (fail error : Parse α) (fail error) where
  moves := moves_fail error
  image _ read := nomatch read
  inside read := nomatch read

theorem continues_peek : Continues tail peek peek where
  moves := moves_peek
  image extended read _ inside := by
    obtain ⟨rfl, rfl⟩ := peek_eq_ok.mp read
    refine ⟨_, ?_, extended⟩
    rw [peek, (extended.inside inside).1]

theorem continues_take : Continues tail take take where
  moves := moves_take
  image {c _ _ _} extended read _ inside := by
    obtain ⟨rfl, rfl⟩ := take_eq_ok.mp read
    obtain ⟨here, extended⟩ := extended.inside ((Cursor.onward_advance c).inside inside)
    refine ⟨_, ?_, extended⟩
    rw [take, here]

theorem steady_report (spot : Located) (error : StaticError) :
    Steady tail (report spot error) (report spot error) where
  moves := moves_report spot error
  image _ read clean := by
    obtain rfl := report_eq_ok.mp read
    exact absurd clean (List.append_ne_nil_of_right_ne_nil _ (List.cons_ne_nil _ _))

theorem continues_fresh : Continues tail fresh fresh where
  moves := moves_fresh
  image {_ d _ _} extended read _ _ := by
    cases read
    refine ⟨{ d with nextId := d.nextId + 1 }, ?_, extended.tokens, ?_, extended.loops, extended.functions,
      extended.diagnostics⟩
    · rw [fresh, extended.nextId]
    · exact congrArg Nat.succ extended.nextId

theorem continues_loopDepth : Continues tail loopDepth loopDepth where
  moves := moves_loopDepth
  image extended read _ _ := by
    cases read
    refine ⟨_, ?_, extended⟩
    rw [loopDepth, extended.loops]

theorem continues_functionDepth : Continues tail functionDepth functionDepth where
  moves := moves_functionDepth
  image extended read _ _ := by
    cases read
    refine ⟨_, ?_, extended⟩
    rw [functionDepth, extended.functions]

section Tokens

variable (plain : token ≠ .endOfInput)
include plain

theorem closes_expect : Closes tail (expect token) (expect token) where
  moves := moves_expect token
  image extended read _ := by
    obtain ⟨same, rfl⟩ := expect_eq_ok.mp read
    obtain ⟨here, extended⟩ := extended.inside (same ▸ plain)
    exact ⟨_, expect_eq_ok.mpr ⟨here ▸ same, rfl⟩, extended⟩
  inside read _ := by
    obtain ⟨same, rfl⟩ := expect_eq_ok.mp read
    exact same ▸ plain

theorem accept_extends {taken : Bool} (extended : c.Extends tail d) (read : accept token c = .ok taken next)
    (other : c.here.token = .endOfInput → (tail.headD ⟨.endOfInput, 1⟩).token ≠ token) :
    ∃ next', accept token d = .ok taken next' ∧ next.Extends tail next' := by
  have here := extended.here_iff plain other
  rcases accept_eq_ok.mp read with ⟨same, rfl, rfl⟩ | ⟨apart, rfl, rfl⟩
  · have further := (extended.inside (same ▸ plain)).2
    exact ⟨_, accept_eq_ok.mpr (.inl ⟨here.mpr same, rfl, rfl⟩), further⟩
  · exact ⟨_, accept_eq_ok.mpr (.inr ⟨fun same => apart (here.mp same), rfl, rfl⟩), extended⟩

theorem continues_accept : Continues tail (accept token) (accept token) where
  moves := moves_accept token
  image extended read _ inside :=
    accept_extends plain extended read fun ends => absurd ends (((moves_accept token).ok read).inside inside)

theorem steady_accept (apart : (tail.headD ⟨.endOfInput, 1⟩).token ≠ token) :
    Steady tail (accept token) (accept token) where
  moves := moves_accept token
  image extended read _ := accept_extends plain extended read fun _ => apart

/-- A choice that closes on either side: what is accepted was not the end. -/
theorem closes_accept_bind {f g : Bool → Parse β} (taken : Steady tail (f true) (g true))
    (left : Closes tail (f false) (g false)) : Closes tail (accept token >>= f) (accept token >>= g) where
  moves := (moves_accept token).bind fun
    | true => taken.moves
    | false => left.moves
  image {c _ _ _} extended read clean := by
    obtain ⟨found, middle, reads, behind⟩ := bind_eq_ok.mp read
    have inside : c.here.token ≠ .endOfInput := by
      rcases accept_eq_ok.mp reads with ⟨same, rfl, rfl⟩ | ⟨_, rfl, rfl⟩
      · exact same ▸ plain
      · exact left.inside behind clean
    obtain ⟨middle', reads', extended⟩ := accept_extends plain extended reads fun ends => absurd ends inside
    cases found with
    | true =>
      obtain ⟨next', behind', extended⟩ := taken.image extended behind clean
      exact ⟨next', bind_eq_ok.mpr ⟨_, middle', reads', behind'⟩, extended⟩
    | false =>
      obtain ⟨next', behind', extended⟩ := left.image extended behind clean
      exact ⟨next', bind_eq_ok.mpr ⟨_, middle', reads', behind'⟩, extended⟩
  inside read clean := by
    obtain ⟨found, middle, reads, behind⟩ := bind_eq_ok.mp read
    rcases accept_eq_ok.mp reads with ⟨same, rfl, rfl⟩ | ⟨_, rfl, rfl⟩
    · exact same ▸ plain
    · exact left.inside behind clean

end Tokens

theorem continues_acceptEither (token other : Token) :
    Continues tail (acceptEither token other) (acceptEither token other) where
  moves := moves_acceptEither token other
  image {c _ _ _} extended read _ inside := by
    obtain ⟨here, further⟩ := extended.inside (((moves_acceptEither token other).ok read).inside inside)
    rcases acceptEither_eq_ok.mp read with ⟨same, rfl, rfl⟩ | ⟨apart, rfl, rfl⟩
    · exact ⟨_, acceptEither_eq_ok.mpr (.inl ⟨here ▸ same, rfl, rfl⟩), further⟩
    · exact ⟨_, acceptEither_eq_ok.mpr (.inr ⟨here ▸ apart, rfl, rfl⟩), extended⟩

theorem closes_identifier : Closes tail identifier identifier where
  moves := moves_identifier
  image extended read _ := by
    obtain ⟨same, line, rfl⟩ := identifier_eq_ok.mp read
    obtain ⟨here, extended⟩ := extended.inside (by simp [same])
    exact ⟨_, identifier_eq_ok.mpr ⟨here ▸ same, here ▸ line, rfl⟩, extended⟩
  inside read _ := by
    obtain ⟨same, -, -⟩ := identifier_eq_ok.mp read
    simp [same]

theorem Steady.inLoop (body : Steady tail p q) : Steady tail (inLoop p) (inLoop q) where
  moves := body.moves.inLoop
  image {c d _ _} extended read clean := by
    obtain ⟨inner, reads, rfl⟩ := inLoop_eq_ok.mp read
    have nested := extended.nested (c.loops + 1) c.functions
    obtain ⟨inner', reads', extended'⟩ := body.image nested reads clean
    refine ⟨_, inLoop_eq_ok.mpr ⟨inner', ?_, rfl⟩, ?_⟩
    · rw [extended.loops, ← reads', ← extended.functions]
    · rw [extended.loops, extended.functions]
      exact extended'.nested _ _

theorem Closes.inFunction (body : Closes tail p q) : Closes tail (inFunction p) (inFunction q) where
  moves := body.moves.inFunction
  image {c d _ _} extended read clean := by
    obtain ⟨inner, reads, rfl⟩ := inFunction_eq_ok.mp read
    have nested := extended.nested 0 (c.functions + 1)
    obtain ⟨inner', reads', extended'⟩ := body.image nested reads clean
    refine ⟨_, inFunction_eq_ok.mpr ⟨inner', ?_, rfl⟩, ?_⟩
    · rw [extended.functions, ← reads']
    · rw [extended.loops, extended.functions]
      exact extended'.nested _ _
  inside {c _ _} read clean := by
    obtain ⟨inner, reads, rfl⟩ := inFunction_eq_ok.mp read
    exact body.inside (c := { c with loops := 0, functions := c.functions + 1 }) reads clean

theorem Continues.braced (body : Continues tail p q) : Closes tail (braced p) (braced q) :=
  (closes_expect (by simp)).continues.closes fun _ => body.closes fun _ =>
    (closes_expect (by simp)).bind fun _ => steady_pure _

theorem recover_clean {a? : Option α} (read : recover p c = .ok a? next) (clean : next.diagnostics = []) :
    ∃ a, p c = .ok a next ∧ a? = some a := by
  rcases recover_eq_ok.mp read with given | ⟨error, middle, -, -, rfl⟩
  · exact given
  · have reported := (Cursor.onward_synchronize _).clean clean
    simp [Cursor.report] at reported

theorem Closes.recover (body : Closes tail p q) : Closes tail (recover p) (recover q) where
  moves := body.moves.recover
  image extended read clean := by
    obtain ⟨a, reads, rfl⟩ := recover_clean read clean
    obtain ⟨next', reads', extended⟩ := body.image extended reads clean
    exact ⟨next', recover_eq_ok.mpr (.inl ⟨a, reads', rfl⟩), extended⟩
  inside read clean := by
    obtain ⟨a, reads, -⟩ := recover_clean read clean
    exact body.inside reads clean

end Parse

/-! ### Expressions -/

section Readers

variable {n m : Nat}

structure ExprsContinue (tail : List Located) (n m : Nat) : Prop where
  exprAt : ∀ level, Continues tail (exprAt n level) (exprAt m level)
  operationsOn : ∀ level left, Continues tail (operationsOn n level left) (operationsOn m level left)
  suffixesOf : ∀ object, Continues tail (suffixesOf n object) (suffixesOf m object)
  items : ∀ closing, closing ≠ .endOfInput → Closes tail (items n closing) (items m closing)
  moreItems : ∀ closing, closing ≠ .endOfInput → Closes tail (moreItems n closing) (moreItems m closing)
  primary : Continues tail (primary n) (primary m)

section Expressions

variable (ih : ExprsContinue tail n m)
include ih

theorem items_continue {closing : Token} (plain : closing ≠ .endOfInput) :
    Closes tail (items (n + 1) closing) (items (m + 1) closing) := by
  refine closes_accept_bind plain (steady_pure _) ?_
  exact (ih.exprAt _).closes fun _ => (ih.moreItems _ plain).bind fun _ => steady_pure _

theorem moreItems_continue {closing : Token} (plain : closing ≠ .endOfInput) :
    Closes tail (moreItems (n + 1) closing) (moreItems (m + 1) closing) := by
  refine (continues_accept (by simp)).closes fun taken => ?_
  cases taken with
  | true => exact (ih.exprAt _).closes fun _ => (ih.moreItems _ plain).bind fun _ => steady_pure _
  | false => exact (closes_expect plain).bind fun _ => steady_pure _

theorem operationsOn_continue (level : Level) (left : Expr) :
    Continues tail (operationsOn (n + 1) level left) (operationsOn (m + 1) level left) := by
  refine continues_peek.bind fun token => ?_
  split
  · exact continues_take.bind fun _ => (ih.exprAt _).bind fun _ => ih.operationsOn _ _
  · exact continues_pure _

theorem suffixesOf_continue (object : Expr) :
    Continues tail (suffixesOf (n + 1) object) (suffixesOf (m + 1) object) := by
  refine continues_peek.bind fun token => ?_
  split
  · exact continues_take.bind fun _ => (ih.items _ (by simp)).continues.bind fun _ => ih.suffixesOf _
  · exact continues_take.bind fun _ => closes_identifier.continues.bind fun _ => ih.suffixesOf _
  · exact continues_take.bind fun _ => (ih.exprAt _).bind fun _ =>
      (closes_expect (by simp)).continues.bind fun _ => ih.suffixesOf _
  · exact continues_pure _

theorem primary_continue : Continues tail (primary (n + 1)) (primary (m + 1)) := by
  refine continues_peek.bind fun token => ?_
  split
  · exact continues_take.bind fun _ => continues_pure _
  split
  · exact continues_take.bind fun _ => continues_fresh.bind fun _ => continues_pure _
  · exact continues_take.bind fun _ => continues_fresh.bind fun _ => continues_pure _
  · exact continues_take.bind fun _ => (closes_expect (by simp)).continues.bind fun _ =>
      closes_identifier.continues.bind fun _ => continues_fresh.bind fun _ => continues_pure _
  · exact continues_take.bind fun _ => (ih.exprAt _).bind fun _ =>
      (closes_expect (by simp)).continues.bind fun _ => continues_pure _
  · exact continues_take.bind fun _ => (ih.items _ (by simp)).continues.bind fun _ => continues_pure _
  · exact (closes_fail _).continues

theorem assignment_continue :
    Continues tail (exprAt (n + 1) .assignment) (exprAt (m + 1) .assignment) := by
  refine (ih.exprAt _).bind fun target => continues_peek.bind fun token => ?_
  split
  · refine continues_take.bind fun _ => (ih.exprAt _).bind fun value => ?_
    split
    · exact continues_pure _
    · exact (steady_report _ _).continues.bind fun _ => continues_pure _
  · exact continues_pure _

theorem conditional_continue :
    Continues tail (exprAt (n + 1) .conditional) (exprAt (m + 1) .conditional) := by
  refine (ih.exprAt _).bind fun test => (continues_accept (by simp)).bind fun taken => ?_
  split
  · exact (ih.exprAt _).bind fun _ => (closes_expect (by simp)).continues.bind fun _ =>
      (ih.exprAt _).bind fun _ => continues_pure _
  · exact continues_pure _

theorem unary_continue : Continues tail (exprAt (n + 1) .unary) (exprAt (m + 1) .unary) := by
  refine continues_peek.bind fun token => ?_
  split
  · exact continues_take.bind fun _ => (ih.exprAt _).bind fun _ => continues_pure _
  · exact ih.exprAt _

end Expressions

theorem exprs_continue (le : n ≤ m) : ExprsContinue tail n m := by
  induction n generalizing m with
  | zero =>
    exact ⟨fun _ => closes_starve.continues, fun _ _ => closes_starve.continues,
      fun _ => closes_starve.continues, fun _ _ => closes_starve, fun _ _ => closes_starve,
      closes_starve.continues⟩
  | succ n ih =>
    obtain ⟨m, rfl⟩ := Nat.exists_eq_succ_of_ne_zero (Nat.ne_of_gt (Nat.zero_lt_of_lt le))
    have ih := ih (Nat.le_of_succ_le_succ le)
    refine ⟨fun level => ?_, operationsOn_continue ih, suffixesOf_continue ih, fun _ => items_continue ih,
      fun _ => moreItems_continue ih, primary_continue ih⟩
    cases level with
    | assignment => exact assignment_continue ih
    | conditional => exact conditional_continue ih
    | unary => exact unary_continue ih
    | suffix => exact (ih.exprAt _).bind fun _ => ih.suffixesOf _
    | primary => exact ih.primary
    | _ => exact (ih.exprAt _).bind fun _ => ih.operationsOn _ _

/-! ### Statements -/

theorem moreParams_continue (le : n ≤ m) : Closes tail (moreParams n) (moreParams m) := by
  induction n generalizing m with
  | zero => exact closes_starve
  | succ n ih =>
    obtain ⟨m, rfl⟩ := Nat.exists_eq_succ_of_ne_zero (Nat.ne_of_gt (Nat.zero_lt_of_lt le))
    refine (continues_accept (by simp)).closes fun taken => ?_
    cases taken with
    | true =>
      exact closes_identifier.bind fun _ => (ih (Nat.le_of_succ_le_succ le)).toSteady.bind fun _ => steady_pure _
    | false => exact (closes_expect (by simp)).bind fun _ => steady_pure _

theorem superclass_continue : Continues tail superclass superclass := by
  refine (continues_acceptEither _ _).bind fun taken => ?_
  split
  · exact closes_identifier.continues.bind fun _ => continues_fresh.bind fun _ => continues_pure _
  · exact continues_pure _

theorem takeJump_continue {depth : Parse Nat} (reads : Continues tail depth depth) (error : StaticError) :
    Continues tail (takeJump depth error) (takeJump depth error) := by
  refine continues_take.bind fun spot => reads.bind fun found => ?_
  split
  · exact (steady_report _ _).continues.bind fun _ => continues_pure _
  · exact continues_pure _

theorem atBlockEnd_continue : Continues tail atBlockEnd atBlockEnd :=
  continues_peek.bind fun _ => continues_pure _

section Clauses

variable (le : n ≤ m)
include le

theorem params_continue : Closes tail (params n) (params m) := by
  refine (closes_expect (by simp)).continues.closes fun _ => closes_accept_bind (by simp) (steady_pure _) ?_
  exact closes_identifier.bind fun _ => (moreParams_continue le).toSteady.bind fun _ => steady_pure _

theorem varDecl_continue : Closes tail (varDecl n) (varDecl m) := by
  refine closes_identifier.continues.closes fun found => (continues_accept (by simp)).closes fun taken => ?_
  split
  · exact ((exprs_continue le).exprAt _).closes fun _ => (closes_expect (by simp)).bind fun _ => steady_pure _
  · exact (closes_expect (by simp)).bind fun _ => steady_pure _

theorem optionalExpr_continue {closing : Token} (plain : closing ≠ .endOfInput) :
    Closes tail (optionalExpr n closing) (optionalExpr m closing) := by
  refine closes_accept_bind plain (steady_pure _) ?_
  exact ((exprs_continue le).exprAt _).closes fun _ => (closes_expect plain).bind fun _ => steady_pure _

theorem parenExpr_continue : Closes tail (parenExpr n) (parenExpr m) :=
  (closes_expect (by simp)).continues.closes fun _ => ((exprs_continue le).exprAt _).closes fun _ =>
    (closes_expect (by simp)).bind fun _ => steady_pure _

theorem exprStmt_continue : Closes tail (exprStmt n) (exprStmt m) :=
  ((exprs_continue le).exprAt _).closes fun _ => (closes_expect (by simp)).bind fun _ => steady_pure _

theorem forInitial_continue : Closes tail (forInitial n) (forInitial m) := by
  refine closes_accept_bind (by simp) (steady_pure _) ?_
  refine (continues_accept (by simp)).closes fun taken => ?_
  split
  · exact (varDecl_continue le).bind fun _ => steady_pure _
  · exact (exprStmt_continue le).bind fun _ => steady_pure _

end Clauses

structure StmtsContinue (tail : List Located) (n m : Nat) : Prop where
  declaration : Closes tail (declaration n) (declaration m)
  statement : Closes tail (statement n) (statement m)
  declarations : Continues tail (declarations n) (declarations m)
  function : Closes tail (function n) (function m)
  methods : Continues tail (methods n) (methods m)

theorem declaration_continue (le : n ≤ m) (ih : StmtsContinue tail n m) :
    Closes tail (declaration (n + 1)) (declaration (m + 1)) := by
  refine Closes.recover (continues_peek.closes fun token => ?_)
  split
  · exact continues_take.closes fun _ => closes_identifier.continues.closes fun _ =>
      superclass_continue.closes fun _ => ih.methods.braced.bind fun _ => steady_pure _
  · exact continues_take.closes fun _ => ih.function.bind fun _ => steady_pure _
  · exact continues_take.closes fun _ => varDecl_continue le
  · exact ih.statement

theorem statement_continue (le : n ≤ m) (ih : StmtsContinue tail n m)
    (apart : (tail.headD ⟨.endOfInput, 1⟩).token ≠ .keyword .elseWord) :
    Closes tail (statement (n + 1)) (statement (m + 1)) := by
  have exprs : ExprsContinue tail n m := exprs_continue le
  refine continues_peek.closes fun token => ?_
  split
  · exact continues_take.closes fun _ => (exprs.exprAt _).closes fun _ =>
      (exprs.moreItems _ (by simp)).bind fun _ => steady_pure _
  · exact ih.declarations.braced.bind fun _ => steady_pure _
  · refine continues_take.closes fun _ => (parenExpr_continue le).bind fun _ =>
      ih.statement.toSteady.bind fun _ => (steady_accept (by simp) apart).bind fun taken => ?_
    split
    · exact ih.statement.toSteady.bind fun _ => steady_pure _
    · exact steady_pure _
  · exact continues_take.closes fun _ => (parenExpr_continue le).bind fun _ =>
      ih.statement.toSteady.inLoop.bind fun _ => steady_pure _
  · exact continues_take.closes fun _ => (closes_expect (by simp)).bind fun _ =>
      (forInitial_continue le).toSteady.bind fun _ => (optionalExpr_continue le (by simp)).toSteady.bind fun _ =>
      (optionalExpr_continue le (by simp)).toSteady.bind fun _ => ih.statement.toSteady.inLoop.bind fun _ =>
      steady_pure _
  · exact (takeJump_continue continues_loopDepth _).closes fun _ => (closes_expect (by simp)).bind fun _ =>
      steady_pure _
  · exact (takeJump_continue continues_loopDepth _).closes fun _ => (closes_expect (by simp)).bind fun _ =>
      steady_pure _
  · exact (takeJump_continue continues_functionDepth _).closes fun _ =>
      (optionalExpr_continue le (by simp)).bind fun _ => steady_pure _
  · exact exprStmt_continue le

theorem declarations_continue (ih : StmtsContinue tail n m) :
    Continues tail (declarations (n + 1)) (declarations (m + 1)) := by
  refine atBlockEnd_continue.bind fun ends => ?_
  split
  · exact continues_pure _
  · exact ih.declaration.continues.bind fun _ => ih.declarations.bind fun _ => continues_pure _

theorem function_continue (le : n ≤ m) (ih : StmtsContinue tail n m) :
    Closes tail (function (n + 1)) (function (m + 1)) :=
  closes_identifier.bind fun _ => (params_continue le).toSteady.bind fun _ =>
    (ih.declarations.braced.inFunction.bind fun _ => steady_pure _).toSteady

theorem methods_continue (ih : StmtsContinue tail n m) :
    Continues tail (methods (n + 1)) (methods (m + 1)) := by
  refine atBlockEnd_continue.bind fun ends => ?_
  split
  · exact continues_pure _
  · exact ih.function.continues.bind fun _ => ih.methods.bind fun _ => continues_pure _

theorem stmts_continue (le : n ≤ m) (apart : (tail.headD ⟨.endOfInput, 1⟩).token ≠ .keyword .elseWord) :
    StmtsContinue tail n m := by
  induction n generalizing m with
  | zero =>
    exact ⟨closes_starve, closes_starve, closes_starve.continues, closes_starve, closes_starve.continues⟩
  | succ n ih =>
    obtain ⟨m, rfl⟩ := Nat.exists_eq_succ_of_ne_zero (Nat.ne_of_gt (Nat.zero_lt_of_lt le))
    have le := Nat.le_of_succ_le_succ le
    have ih := ih le
    exact ⟨declaration_continue le ih, statement_continue le ih apart, declarations_continue ih,
      function_continue le ih, methods_continue ih⟩

/-! ### Programs -/

theorem program_atEnd (n : Nat) (ends : c.here.token = .endOfInput) : program (n + 1) c = .ok [] c := by
  change (if c.here.token = .endOfInput then (pure [] : Parse _) else _) c = _
  rw [if_pos ends]
  rfl

theorem program_inside (inside : c.here.token ≠ .endOfInput) {ss : List Stmt} :
    program (n + 1) c = .ok ss last ↔ ∃ first? middle others, declaration n c = .ok first? middle ∧
      program n middle = .ok others last ∧ ss = first?.toList ++ others := by
  change (if c.here.token = .endOfInput then (pure [] : Parse _) else _) c = _ ↔ _
  rw [if_neg inside, bind_eq_ok]
  constructor
  · rintro ⟨first?, middle, first, behind⟩
    obtain ⟨others, end', rest, given⟩ := bind_eq_ok.mp behind
    obtain ⟨rfl, rfl⟩ := pure_eq_ok.mp given
    exact ⟨first?, middle, others, first, rest, rfl⟩
  · rintro ⟨first?, middle, others, first, rest, rfl⟩
    exact ⟨first?, middle, first, bind_eq_ok.mpr ⟨others, last, rest, rfl⟩⟩

/-- A program that is read without a report is read in front of other tokens too, and these behind it. A
statement uses up one step of the depth and at least one token. -/
theorem program_continues {ss : List Stmt} (extended : c.Extends tail d)
    (apart : (tail.headD ⟨.endOfInput, 1⟩).token ≠ .keyword .elseWord) (extra : Nat)
    (read : program n c = .ok ss last) (clean : last.diagnostics = []) :
    ∃ left last', last.Extends tail last' ∧ last.here.token = .endOfInput ∧
      n + last.rest.length ≤ left + c.rest.length ∧
      ∀ {ts end'}, program (left + extra) last' = .ok ts end' → program (n + extra) d = .ok (ss ++ ts) end' := by
  induction n generalizing c d ss with
  | zero => cases read
  | succ n ih =>
    by_cases ends : c.here.token = .endOfInput
    · rw [program_atEnd n ends] at read
      cases read
      exact ⟨n + 1, d, extended, ends, Nat.le_refl _, id⟩
    · obtain ⟨first?, middle, others, first, rest, rfl⟩ := (program_inside ends).mp read
      have reads := (stmts_continue (Nat.le_add_right n extra) apart).declaration
      obtain ⟨middle', first', further⟩ := reads.image extended first (((program_moves n).ok rest).clean clean)
      obtain ⟨left, last', extended', ends', used, behind⟩ := ih further rest
      have taken := declaration_takes ends first
      refine ⟨left, last', extended', ends', by omega, fun read' => ?_⟩
      have inside : d.here.token ≠ .endOfInput := (extended.inside ends).1 ▸ ends
      have readAll := (program_inside inside).mpr ⟨first?, middle', _, first', behind read', rfl⟩
      rw [List.append_assoc, Nat.succ_add]
      exact readAll

theorem Cursor.extends_self {body : List Located} {stop : Located} (rest : c.rest = body ++ [stop])
    (stopped : stop.token = .endOfInput) (inside : ∀ l ∈ body, l.token ≠ .endOfInput) :
    c.Extends [stop] c :=
  ⟨⟨body, stop, rest, rest, stopped, inside⟩, rfl, rfl, rfl, rfl⟩

/-- More depth does not change what is read without a report. -/
theorem program_deeper {ss : List Stmt} {stop : Located} (extended : c.Extends [stop] c)
    (stopped : stop.token = .endOfInput) (le : n ≤ m) (read : program n c = .ok ss last)
    (clean : last.diagnostics = []) :
    ∃ last', program m c = .ok ss last' ∧ last'.diagnostics = [] ∧ last'.nextId = last.nextId := by
  obtain ⟨extra, rfl⟩ := Nat.exists_eq_add_of_le le
  cases extra with
  | zero => exact ⟨last, read, clean, rfl⟩
  | succ extra =>
    have apart : ([stop].headD ⟨.endOfInput, 1⟩).token ≠ .keyword .elseWord := by
      rw [List.headD_cons, stopped]
      exact Token.noConfusion
    obtain ⟨left, last', extended', ends, -, behind⟩ := program_continues extended apart (extra + 1) read clean
    have ends' : last'.here.token = .endOfInput := by
      rw [Cursor.here, extended'.atEnd ends]
      exact stopped
    have deeper := behind (program_atEnd (left + extra) ends')
    rw [List.append_nil] at deeper
    exact ⟨last', deeper, extended'.diagnostics.trans clean, extended'.nextId⟩

end Readers

/-! ### Whole programs -/

section Programs

variable {nextId : Nat} {before behind : List Located} {stop stop' : Located}

theorem closed_ending (before : List Located) (stopped : stop.token = .endOfInput) :
    closed (before ++ [stop]) = before ++ [stop] := by
  simp [closed, stopped]

/-- No program starts with `else`. -/
theorem head_of_clean (inside : ∀ l ∈ before, l.token ≠ .endOfInput) (stopped : stop.token = .endOfInput)
    (clean : (parse nextId (before ++ [stop])).diagnostics = []) :
    ((before ++ [stop]).headD ⟨.endOfInput, 1⟩).token ≠ .keyword .elseWord := by
  obtain ⟨spells, -, -⟩ := parse_all_read inside stopped clean
  obtain ⟨token, line⟩ := stop
  obtain rfl : token = .endOfInput := stopped
  have faces : (Cursor.mk (before ++ [⟨.endOfInput, line⟩]) nextId 0 0 []).Faces (_ ++ [.endOfInput]) :=
    spells.append (.cons .endOfInput line .nil)
  intro same
  exact Stmt.tokensAll_head _ Token.noConfusion (faces.here.symm.trans same)

theorem start_eq {c : Cursor} {tokens : List Located} (rest : c.rest = closed tokens) (loops : c.loops = 0)
    (functions : c.functions = 0) (clean : c.diagnostics = []) : c = .start c.nextId tokens := by
  obtain ⟨_, _, _, _, _⟩ := c
  dsimp only at rest loops functions clean
  subst rest loops functions clean
  rfl

/-- Tokens put together are read as the program of the first ones and behind it that of the others, if
nothing is reported of either. -/
theorem parse_append (inside : ∀ l ∈ before, l.token ≠ .endOfInput) (stopped : stop.token = .endOfInput)
    (inside' : ∀ l ∈ behind, l.token ≠ .endOfInput) (stopped' : stop'.token = .endOfInput)
    (clean : (parse nextId (before ++ [stop])).diagnostics = [])
    (clean' : (parse (parse nextId (before ++ [stop])).nextId (behind ++ [stop'])).diagnostics = []) :
    let first := parse nextId (before ++ [stop])
    let second := parse first.nextId (behind ++ [stop'])
    parse nextId (before ++ (behind ++ [stop'])) = ⟨first.program ++ second.program, [], second.nextId⟩ := by
  intro first second
  have apart := head_of_clean inside' stopped' clean'
  obtain ⟨last, read, clean, nextId₁⟩ := parse_read clean
  obtain ⟨last', read', clean', nextId₂⟩ := parse_read clean'
  have closed₁ : closed (before ++ [stop]) = before ++ [stop] := closed_ending before stopped
  have closed₂ : closed (behind ++ [stop']) = behind ++ [stop'] := closed_ending behind stopped'
  have closed₃ : closed (before ++ (behind ++ [stop'])) = before ++ (behind ++ [stop']) := by
    rw [← List.append_assoc]
    exact closed_ending _ stopped'
  have extended : (Cursor.start nextId (before ++ [stop])).Extends (behind ++ [stop'])
      (.start nextId (before ++ (behind ++ [stop']))) :=
    ⟨⟨before, stop, closed₁, closed₃, stopped, inside⟩, rfl, rfl, rfl, rfl⟩
  obtain ⟨left, middle, reached, ends, used, behind'⟩ :=
    program_continues extended apart (32 * behind.length) read clean
  have moved := (program_moves _).ok read
  have atStart : middle = .start first.nextId (behind ++ [stop']) := by
    have start := start_eq (c := middle) ((reached.atEnd ends).trans closed₂.symm)
      (reached.loops.trans moved.loops) (reached.functions.trans moved.functions)
      (reached.diagnostics.trans clean)
    rw [start, reached.nextId, nextId₁]
  have depth : depthFor (before ++ (behind ++ [stop'])) = depthFor (before ++ [stop]) + 32 * behind.length := by
    simp only [depthFor, List.length_append, List.length_cons, List.length_nil]
    omega
  have deep : depthFor (behind ++ [stop']) ≤ left + 32 * behind.length := by
    obtain ⟨body, stop'', rest, -⟩ := reached.tokens
    have length : (Cursor.start nextId (before ++ [stop])).rest.length = before.length + 1 := by
      simp [Cursor.start, closed₁]
    rw [rest, length] at used
    simp only [depthFor, List.length_append, List.length_cons, List.length_nil] at used ⊢
    omega
  have self : (Cursor.start first.nextId (behind ++ [stop'])).Extends [stop'] (.start first.nextId (behind ++ [stop'])) :=
    Cursor.extends_self closed₂ stopped' inside'
  obtain ⟨last'', deeper, clean'', nextId₃⟩ := program_deeper self stopped' deep read' clean'
  have whole := behind' (atStart ▸ deeper)
  calc parse nextId (before ++ (behind ++ [stop']))
      = ⟨first.program ++ second.program, last''.diagnostics, last''.nextId⟩ := by
        unfold parse
        rw [depth, whole]
    _ = _ := by rw [clean'', nextId₃, nextId₂]

end Programs

end Lox
