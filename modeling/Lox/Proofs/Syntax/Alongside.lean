import Lox.Proofs.Syntax.Reading

/-!
Reading in two places side by side. Readers look at the token in front of them and at the nesting, and take
tokens one by one; so in two places that are alike in that respect they come to the same, whatever else may
differ: what lies behind the phrase, what was reported before, or the depth that is left. For expressions this
is shown of any relation between places that the steps of reading keep, as long as tokens are taken that may
stand in an expression. `Behind` is such a relation, and the readers of statements keep it too.
-/

namespace Lox

open Parse

variable {α β : Type} {c d next last : Cursor} {n m : Nat} {token : Token}

/-- What two readings side by side come to. Only the second one goes on where the depth of the first is used
up. What stops them is no mild error. -/
inductive Reply.Meets (F S : Cursor → Cursor → Prop) : Reply α → Reply α → Prop
  | ok {a : α} {c d : Cursor} : S c d → Meets F S (.ok a c) (.ok a d)
  | failed {e : Diagnostic} {c d : Cursor} : F c d → ¬ e.error.Mild → Meets F S (.failed e c) (.failed e d)
  | starved {y : Reply α} : Meets F S .starved y

/-- From places in the one relation two readers come to places in another, or fail in places in a third. -/
def Parse.Alongside (F R S : Cursor → Cursor → Prop) (p q : Parse α) : Prop :=
  ∀ c d, R c d → (p c).Meets F S (q d)

/-- The same in front of a given token. -/
def Parse.AlongsideAt (token : Token) (F R S : Cursor → Cursor → Prop) (p q : Parse α) : Prop :=
  ∀ c d, R c d → c.here.token = token → (p c).Meets F S (q d)

/-- Tokens that may stand in an expression. -/
def Token.joins : Token → Bool
  | .mark .leftCurly | .mark .rightCurly | .mark .semicolon | .endOfInput => false
  | .keyword .andWord | .keyword .orWord | .keyword .nilWord | .keyword .trueWord | .keyword .falseWord
  | .keyword .thisWord | .keyword .superWord => true
  | .keyword _ => false
  | _ => true

/-- The steps of reading an expression lead from places in the relation to places in it. -/
structure Alike (R : Cursor → Cursor → Prop) : Prop where
  here : ∀ {c d}, R c d → d.here = c.here
  nextId : ∀ {c d}, R c d → d.nextId = c.nextId
  advance : ∀ {c d}, R c d → c.here.token.joins = true → R c.advance d.advance
  fresh : ∀ {c d}, R c d → R { c with nextId := c.nextId + 1 } { d with nextId := d.nextId + 1 }
  report : ∀ {c d} l, R c d →
    R (c.report (.at l .invalidAssignmentTarget)) (d.report (.at l .invalidAssignmentTarget))

namespace Parse

variable {F R S T : Cursor → Cursor → Prop} {p q : Parse α} {f g : α → Parse β}

theorem Alongside.bind (first : Alongside F R S p q) (second : ∀ a, Alongside F S T (f a) (g a)) :
    Alongside F R T (p >>= f) (q >>= g) := by
  intro c d related
  have met := first c d related
  change (Parse.bind p f c).Meets F T (Parse.bind q g d)
  unfold Parse.bind
  generalize p c = x at met
  generalize q d = y at met
  cases met with
  | ok related => exact second _ _ _ related
  | failed related hard => exact .failed related hard
  | starved => exact .starved

theorem Alongside.at_token (alongside : Alongside F R S p q) : AlongsideAt token F R S p q :=
  fun c d related _ => alongside c d related

theorem AlongsideAt.bind (first : AlongsideAt token F R S p q) (second : ∀ a, Alongside F S T (f a) (g a)) :
    AlongsideAt token F R T (p >>= f) (q >>= g) := by
  intro c d related here
  have first : Alongside F (fun c' d' => c' = c ∧ d' = d) S p q := by
    rintro _ _ ⟨rfl, rfl⟩
    exact first _ _ related here
  exact first.bind second c d ⟨rfl, rfl⟩

/-- What stops a reader is no mild error. -/
theorem Alongside.hard {e : Diagnostic} (alongside : Alongside F R S p q) (related : R c d)
    (failed : p c = .failed e next) : ¬ e.error.Mild := by
  have met := alongside c d related
  rw [failed] at met
  generalize q d = y at met
  cases met with
  | failed _ hard => exact hard

theorem alongside_pure (a : α) : Alongside F R R (pure a) (pure a) :=
  fun _ _ related => .ok related

theorem alongside_starve : Alongside F R S (starve : Parse α) q :=
  fun _ _ _ => .starved

section Primitives

variable (here : ∀ {c d}, R c d → d.here = c.here)
include here

theorem alongsideAt_peek {f g : Token → Parse β} (at' : AlongsideAt token F R S (f token) (g token)) :
    AlongsideAt token F R S (peek >>= f) (peek >>= g) := by
  intro c d related found
  change (f c.here.token c).Meets F S (g d.here.token d)
  rw [here related, found]
  exact at' c d related found

theorem alongside_peek {f g : Token → Parse β} (each : ∀ token, AlongsideAt token F R S (f token) (g token)) :
    Alongside F R S (peek >>= f) (peek >>= g) :=
  fun c d related => alongsideAt_peek here (each _) c d related rfl

theorem alongsideAt_take (step : ∀ {c d}, R c d → c.here.token = token → S c.advance d.advance) :
    AlongsideAt token F R S take take := by
  intro c d related at'
  change Reply.Meets F S (.ok c.here c.advance) (.ok d.here d.advance)
  rw [here related]
  exact .ok (step related at')

theorem alongside_fail {error : StaticError} (hard : ¬ error.Mild) :
    Alongside R R S (fail error : Parse α) (fail error) := by
  intro c d related
  change Reply.Meets R S (.failed (.at c.here error) c) (.failed (.at d.here error) d)
  rw [here related]
  exact .failed related hard

theorem alongside_expect (step : ∀ {c d}, R c d → c.here.token = token → S c.advance d.advance) :
    Alongside R R S (expect token) (expect token) := by
  intro c d related
  unfold expect
  rw [here related]
  by_cases same : c.here.token = token
  · rw [if_pos same, if_pos same]
    exact .ok (step related same)
  · rw [if_neg same, if_neg same]
    exact .failed related id

theorem alongside_accept_bind {f g : Bool → Parse β}
    (step : ∀ {c d}, R c d → c.here.token = token → S c.advance d.advance)
    (taken : Alongside F S T (f true) (g true)) (left : Alongside F R T (f false) (g false)) :
    Alongside F R T (accept token >>= f) (accept token >>= g) := by
  intro c d related
  change (Parse.bind (accept token) f c).Meets F T (Parse.bind (accept token) g d)
  unfold Parse.bind accept
  rw [here related]
  by_cases same : c.here.token = token
  · rw [if_pos same, if_pos same]
    exact taken _ _ (step related same)
  · rw [if_neg same, if_neg same]
    exact left _ _ related

theorem alongside_identifier (step : ∀ {c d} name, R c d → c.here.token = .identifier name → S c.advance d.advance) :
    Alongside R R S identifier identifier := by
  intro c d related
  unfold identifier
  rw [here related]
  cases same : c.here.token with
  | identifier name => exact .ok (step name related same)
  | _ => exact .failed related id

end Primitives

theorem alongside_fresh (nextId : ∀ {c d}, R c d → d.nextId = c.nextId)
    (step : ∀ {c d}, R c d → S { c with nextId := c.nextId + 1 } { d with nextId := d.nextId + 1 }) :
    Alongside F R S fresh fresh := by
  intro c d related
  change Reply.Meets F S (.ok c.nextId _) (.ok d.nextId _)
  rw [nextId related]
  exact .ok (nextId related ▸ step related)

theorem alongside_report {l : Located} {error : StaticError}
    (step : ∀ {c d}, R c d → S (c.report (.at l error)) (d.report (.at l error))) :
    Alongside F R S (report l error) (report l error) :=
  fun _ _ related => .ok (step related)

end Parse

theorem Literal.joins_of_token {value : Literal} (literal : Literal.ofToken? token = some value) :
    token.joins = true := by
  unfold Literal.ofToken? at literal
  split at literal <;> first | rfl | cases literal

theorem UnaryOp.joins_of_token {op : UnaryOp} (operator : UnaryOp.ofToken? token = some op) :
    token.joins = true := by
  unfold UnaryOp.ofToken? at operator
  split at operator <;> first | rfl | cases operator

theorem Level.joins_of_operator {level : Level} {op : BinaryOp} (operator : level.operator? token = some op) :
    token.joins = true := by
  have found := (Option.filter_eq_some_iff.mp operator).1
  unfold BinaryOp.ofToken? at found
  split at found <;> first | rfl | cases found

/-! ### Expressions -/

structure ExprsAlongside (R : Cursor → Cursor → Prop) (n m : Nat) : Prop where
  exprAt : ∀ level, Alongside R R R (exprAt n level) (exprAt m level)
  operationsOn : ∀ level left, Alongside R R R (operationsOn n level left) (operationsOn m level left)
  suffixesOf : ∀ object, Alongside R R R (suffixesOf n object) (suffixesOf m object)
  items : ∀ closing, closing.joins = true → Alongside R R R (items n closing) (items m closing)
  moreItems : ∀ {S : Cursor → Cursor → Prop} closing,
    (∀ {c d}, R c d → c.here.token = closing → S c.advance d.advance) →
    Alongside R R S (moreItems n closing) (moreItems m closing)
  primary : Alongside R R R (primary n) (primary m)

section Expressions

variable {R : Cursor → Cursor → Prop} (alike : Alike R)
include alike

theorem Alike.step (joins : token.joins = true) (related : R c d) (here : c.here.token = token) :
    R c.advance d.advance :=
  alike.advance related (here ▸ joins)

theorem Alike.take_bind {S : Cursor → Cursor → Prop} {f g : Located → Parse β} (joins : token.joins = true)
    (second : ∀ l, Alongside R R S (f l) (g l)) : AlongsideAt token R R S (take >>= f) (take >>= g) :=
  (alongsideAt_take alike.here (alike.step joins)).bind second

theorem Alike.expect (joins : token.joins = true) : Alongside R R R (expect token) (expect token) :=
  alongside_expect alike.here (alike.step joins)

theorem Alike.identifier : Alongside R R R identifier identifier :=
  alongside_identifier alike.here fun _ => alike.step rfl

theorem Alike.freshId : Alongside R R R Parse.fresh Parse.fresh :=
  alongside_fresh alike.nextId alike.fresh

variable (ih : ExprsAlongside R n m)
include ih

theorem moreItems_alongside {S : Cursor → Cursor → Prop} {closing : Token}
    (closes : ∀ {c d}, R c d → c.here.token = closing → S c.advance d.advance) :
    Alongside R R S (moreItems (n + 1) closing) (moreItems (m + 1) closing) := by
  refine alongside_accept_bind alike.here (alike.step rfl) ?_ ?_
  · exact (ih.exprAt _).bind fun _ => (ih.moreItems _ closes).bind fun _ => alongside_pure _
  · exact (alongside_expect alike.here closes).bind fun _ => alongside_pure _

theorem items_alongside {closing : Token} (joins : closing.joins = true) :
    Alongside R R R (items (n + 1) closing) (items (m + 1) closing) := by
  refine alongside_accept_bind alike.here (alike.step joins) (alongside_pure _) ?_
  exact (ih.exprAt _).bind fun _ => (ih.moreItems _ (alike.step joins)).bind fun _ => alongside_pure _

theorem operationsOn_alongside (level : Level) (left : Expr) :
    Alongside R R R (operationsOn (n + 1) level left) (operationsOn (m + 1) level left) := by
  refine alongside_peek alike.here fun token => ?_
  split
  · next op operator =>
    exact alike.take_bind (Level.joins_of_operator operator) fun _ => (ih.exprAt _).bind fun _ =>
      ih.operationsOn _ _
  · exact (alongside_pure _).at_token

theorem suffixesOf_alongside (object : Expr) :
    Alongside R R R (suffixesOf (n + 1) object) (suffixesOf (m + 1) object) := by
  refine alongside_peek alike.here fun token => ?_
  split
  · exact alike.take_bind rfl fun _ => (ih.items _ rfl).bind fun _ => ih.suffixesOf _
  · exact alike.take_bind rfl fun _ => alike.identifier.bind fun _ => ih.suffixesOf _
  · exact alike.take_bind rfl fun _ => (ih.exprAt _).bind fun _ => (alike.expect rfl).bind fun _ =>
      ih.suffixesOf _
  · exact (alongside_pure _).at_token

theorem primary_alongside : Alongside R R R (primary (n + 1)) (primary (m + 1)) := by
  refine alongside_peek alike.here fun token => ?_
  split
  · next literal =>
    exact alike.take_bind (Literal.joins_of_token literal) fun _ => alongside_pure _
  split
  · exact alike.take_bind rfl fun _ => alike.freshId.bind fun _ => alongside_pure _
  · exact alike.take_bind rfl fun _ => alike.freshId.bind fun _ => alongside_pure _
  · exact alike.take_bind rfl fun _ => (alike.expect rfl).bind fun _ => alike.identifier.bind fun _ =>
      alike.freshId.bind fun _ => alongside_pure _
  · exact alike.take_bind rfl fun _ => (ih.exprAt _).bind fun _ => (alike.expect rfl).bind fun _ =>
      alongside_pure _
  · exact alike.take_bind rfl fun _ => (ih.items _ rfl).bind fun _ => alongside_pure _
  · exact (alongside_fail alike.here id).at_token

theorem assignment_alongside :
    Alongside R R R (exprAt (n + 1) .assignment) (exprAt (m + 1) .assignment) := by
  refine (ih.exprAt _).bind fun target => alongside_peek alike.here fun token => ?_
  split
  · next equal =>
    refine alike.take_bind (equal ▸ rfl) fun l => (ih.exprAt _).bind fun value => ?_
    split
    · exact alongside_pure _
    · exact (alongside_report (alike.report _)).bind fun _ => alongside_pure _
  · exact (alongside_pure _).at_token

theorem conditional_alongside :
    Alongside R R R (exprAt (n + 1) .conditional) (exprAt (m + 1) .conditional) := by
  refine (ih.exprAt _).bind fun test => alongside_accept_bind alike.here (alike.step rfl) ?_ (alongside_pure _)
  exact (ih.exprAt _).bind fun _ => (alike.expect rfl).bind fun _ => (ih.exprAt _).bind fun _ => alongside_pure _

theorem unary_alongside : Alongside R R R (exprAt (n + 1) .unary) (exprAt (m + 1) .unary) := by
  refine alongside_peek alike.here fun token => ?_
  split
  · next operator =>
    exact alike.take_bind (UnaryOp.joins_of_token operator) fun _ => (ih.exprAt _).bind fun _ => alongside_pure _
  · exact (ih.exprAt _).at_token

omit ih in
theorem exprs_alongside (le : n ≤ m) : ExprsAlongside R n m := by
  induction n generalizing m with
  | zero =>
    exact ⟨fun _ => alongside_starve, fun _ _ => alongside_starve, fun _ => alongside_starve,
      fun _ _ => alongside_starve, fun _ _ => alongside_starve, alongside_starve⟩
  | succ n ih =>
    obtain ⟨m, rfl⟩ := Nat.exists_eq_succ_of_ne_zero (Nat.ne_of_gt (Nat.zero_lt_of_lt le))
    have ih := ih (Nat.le_of_succ_le_succ le)
    refine ⟨fun level => ?_, operationsOn_alongside alike ih, suffixesOf_alongside alike ih,
      fun _ => items_alongside alike ih, fun _ => moreItems_alongside alike ih, primary_alongside alike ih⟩
    cases level with
    | assignment => exact assignment_alongside alike ih
    | conditional => exact conditional_alongside alike ih
    | unary => exact unary_alongside alike ih
    | suffix => exact (ih.exprAt _).bind fun _ => ih.suffixesOf _
    | primary => exact ih.primary
    | _ => exact (ih.exprAt _).bind fun _ => ih.operationsOn _ _

end Expressions

/-! ### Behind other reports -/

/-- The same place where other errors have been reported before. -/
def Cursor.Behind (ds : List Diagnostic) (c d : Cursor) : Prop :=
  d = { c with diagnostics := ds ++ c.diagnostics }

/-- A reader does the same behind other reports as another one of less depth does without them. -/
abbrev Parse.Trails (ds : List Diagnostic) (p q : Parse α) : Prop :=
  Alongside (Cursor.Behind ds) (Cursor.Behind ds) (Cursor.Behind ds) p q

section Behind

variable {ds : List Diagnostic} {p q : Parse α}

namespace Cursor

theorem Behind.here (behind : Behind ds c d) : d.here = c.here :=
  behind ▸ rfl

theorem Behind.advance (behind : Behind ds c d) : Behind ds c.advance d.advance := by
  obtain rfl := behind
  unfold Behind Cursor.advance Cursor.here
  split <;> rfl

theorem Behind.report (behind : Behind ds c d) (e : Diagnostic) : Behind ds (c.report e) (d.report e) := by
  obtain rfl := behind
  simp only [Behind, Cursor.report, List.append_assoc]

theorem Behind.synchronize (behind : Behind ds c d) : Behind ds c.synchronize d.synchronize := by
  have advanced := behind.advance
  unfold Cursor.synchronize
  rw [behind.here, show d.advance = _ from advanced]
  rfl

theorem Behind.nested (behind : Behind ds c d) (loops functions : Nat) :
    Behind ds { c with loops, functions } { d with loops, functions } :=
  behind ▸ rfl

theorem behind_alike : Alike (Behind ds) where
  here behind := behind.here
  nextId behind := behind ▸ rfl
  advance behind _ := behind.advance
  fresh behind := behind ▸ rfl
  report _ behind := behind.report _

end Cursor

namespace Parse

open Cursor

theorem trails_take : Trails ds take take := by
  intro c d behind
  change Reply.Meets _ _ (.ok c.here c.advance) (.ok d.here d.advance)
  rw [behind.here]
  exact .ok behind.advance

theorem trails_peek {f g : Token → Parse β} (each : ∀ token, Trails ds (f token) (g token)) :
    Trails ds (peek >>= f) (peek >>= g) :=
  alongside_peek Behind.here fun token => (each token).at_token

theorem trails_expect (token : Token) : Trails ds (expect token) (expect token) :=
  alongside_expect Behind.here fun behind _ => behind.advance

theorem trails_accept {f g : Bool → Parse β} (taken : Trails ds (f true) (g true))
    (left : Trails ds (f false) (g false)) : Trails ds (accept token >>= f) (accept token >>= g) :=
  alongside_accept_bind Behind.here (fun behind _ => behind.advance) taken left

theorem trails_acceptEither (first second : Token) :
    Trails ds (acceptEither first second) (acceptEither first second) := by
  intro c d behind
  unfold acceptEither
  rw [behind.here]
  split
  · exact .ok behind.advance
  · exact .ok behind

theorem trails_identifier : Trails ds identifier identifier :=
  behind_alike.identifier

theorem trails_fresh : Trails ds fresh fresh :=
  behind_alike.freshId

theorem trails_report (l : Located) (error : StaticError) : Trails ds (report l error) (report l error) :=
  alongside_report fun behind => behind.report _

theorem trails_loopDepth : Trails ds loopDepth loopDepth := by
  rintro c d rfl
  exact .ok rfl

theorem trails_functionDepth : Trails ds functionDepth functionDepth := by
  rintro c d rfl
  exact .ok rfl

theorem trails_nest {x y : Reply α} (met : x.Meets (Behind ds) (Behind ds) y) (loops functions : Nat) :
    (x.nest loops functions).Meets (Behind ds) (Behind ds) (y.nest loops functions) := by
  cases met with
  | ok behind => exact .ok (behind.nested loops functions)
  | failed behind hard => exact .failed (behind.nested loops functions) hard
  | starved => exact .starved

theorem trails_inLoop (body : Trails ds p q) : Trails ds (inLoop p) (inLoop q) := by
  rintro c d rfl
  exact trails_nest (body _ _ rfl) c.loops c.functions

theorem trails_inFunction (body : Trails ds p q) : Trails ds (inFunction p) (inFunction q) := by
  rintro c d rfl
  exact trails_nest (body _ _ rfl) c.loops c.functions

theorem trails_braced (body : Trails ds p q) : Trails ds (braced p) (braced q) :=
  (trails_expect _).bind fun _ => body.bind fun _ => (trails_expect _).bind fun _ => alongside_pure _

theorem trails_recover (body : Trails ds p q) : Trails ds (recover p) (recover q) := by
  intro c d behind
  have met := body c d behind
  unfold recover
  generalize p c = x at met
  generalize q d = y at met
  cases met with
  | ok behind => exact .ok behind
  | failed behind _ => exact .ok (behind.report _).synchronize
  | starved => exact .starved

end Parse

theorem exprs_trail (le : n ≤ m) : ExprsAlongside (Cursor.Behind ds) n m :=
  exprs_alongside Cursor.behind_alike le

theorem moreItems_trails (le : n ≤ m) (closing : Token) : Trails ds (moreItems n closing) (moreItems m closing) :=
  (exprs_trail le).moreItems closing fun behind _ => behind.advance

theorem moreParams_trails (le : n ≤ m) : Trails ds (moreParams n) (moreParams m) := by
  induction n generalizing m with
  | zero => exact alongside_starve
  | succ n ih =>
    obtain ⟨m, rfl⟩ := Nat.exists_eq_succ_of_ne_zero (Nat.ne_of_gt (Nat.zero_lt_of_lt le))
    refine trails_accept ?_ ((trails_expect _).bind fun _ => alongside_pure _)
    exact trails_identifier.bind fun _ => (ih (Nat.le_of_succ_le_succ le)).bind fun _ => alongside_pure _

theorem params_trails (le : n ≤ m) : Trails ds (params n) (params m) := by
  refine (trails_expect _).bind fun _ => trails_accept (alongside_pure _) ?_
  exact trails_identifier.bind fun _ => (moreParams_trails le).bind fun _ => alongside_pure _

theorem superclass_trails : Trails ds superclass superclass := by
  refine (trails_acceptEither _ _).bind fun taken => ?_
  split
  · exact trails_identifier.bind fun _ => trails_fresh.bind fun _ => alongside_pure _
  · exact alongside_pure _

theorem takeJump_trails {depth : Parse Nat} (reads : Trails ds depth depth) (error : StaticError) :
    Trails ds (takeJump depth error) (takeJump depth error) := by
  refine trails_take.bind fun l => reads.bind fun found => ?_
  split
  · exact (trails_report _ _).bind fun _ => alongside_pure _
  · exact alongside_pure _

theorem atBlockEnd_trails : Trails ds atBlockEnd atBlockEnd :=
  trails_peek fun _ => alongside_pure _

theorem varDecl_trails (le : n ≤ m) : Trails ds (varDecl n) (varDecl m) := by
  refine trails_identifier.bind fun _ => trails_accept ?_ ((trails_expect _).bind fun _ => alongside_pure _)
  exact ((exprs_trail le).exprAt _).bind fun _ => (trails_expect _).bind fun _ => alongside_pure _

theorem optionalExpr_trails (le : n ≤ m) (closing : Token) :
    Trails ds (optionalExpr n closing) (optionalExpr m closing) := by
  refine trails_accept (alongside_pure _) ?_
  exact ((exprs_trail le).exprAt _).bind fun _ => (trails_expect _).bind fun _ => alongside_pure _

theorem parenExpr_trails (le : n ≤ m) : Trails ds (parenExpr n) (parenExpr m) :=
  (trails_expect _).bind fun _ => ((exprs_trail le).exprAt _).bind fun _ => (trails_expect _).bind fun _ =>
    alongside_pure _

theorem exprStmt_trails (le : n ≤ m) : Trails ds (exprStmt n) (exprStmt m) :=
  ((exprs_trail le).exprAt _).bind fun _ => (trails_expect _).bind fun _ => alongside_pure _

theorem forInitial_trails (le : n ≤ m) : Trails ds (forInitial n) (forInitial m) := by
  refine trails_accept (alongside_pure _) (trails_accept ?_ ?_)
  · exact (varDecl_trails le).bind fun _ => alongside_pure _
  · exact (exprStmt_trails le).bind fun _ => alongside_pure _

/-! ### Statements -/

structure StmtsTrail (ds : List Diagnostic) (n m : Nat) : Prop where
  declaration : Trails ds (declaration n) (declaration m)
  statement : Trails ds (statement n) (statement m)
  declarations : Trails ds (declarations n) (declarations m)
  function : Trails ds (function n) (function m)
  methods : Trails ds (methods n) (methods m)

section Statements

variable (le : n ≤ m) (ih : StmtsTrail ds n m)
include le ih

theorem declaration_trails : ∃ p q : Parse Stmt,
    declaration (n + 1) = recover p ∧ declaration (m + 1) = recover q ∧ Trails ds p q := by
  refine ⟨_, _, rfl, rfl, trails_peek fun token => ?_⟩
  split
  · exact trails_take.bind fun _ => trails_identifier.bind fun _ => superclass_trails.bind fun _ =>
      (trails_braced ih.methods).bind fun _ => alongside_pure _
  · exact trails_take.bind fun _ => ih.function.bind fun _ => alongside_pure _
  · exact trails_take.bind fun _ => varDecl_trails le
  · exact ih.statement

theorem statement_trails : Trails ds (statement (n + 1)) (statement (m + 1)) := by
  have exprs : ExprsAlongside (Cursor.Behind ds) n m := exprs_trail le
  have loop := trails_inLoop ih.statement
  refine trails_peek fun token => ?_
  split
  · exact trails_take.bind fun _ => (exprs.exprAt _).bind fun _ => (moreItems_trails le _).bind fun _ =>
      alongside_pure _
  · exact (trails_braced ih.declarations).bind fun _ => alongside_pure _
  · refine trails_take.bind fun _ => (parenExpr_trails le).bind fun _ => ih.statement.bind fun _ =>
      trails_accept ?_ (alongside_pure _)
    exact ih.statement.bind fun _ => alongside_pure _
  · exact trails_take.bind fun _ => (parenExpr_trails le).bind fun _ => loop.bind fun _ => alongside_pure _
  · exact trails_take.bind fun _ => (trails_expect _).bind fun _ => (forInitial_trails le).bind fun _ =>
      (optionalExpr_trails le _).bind fun _ => (optionalExpr_trails le _).bind fun _ => loop.bind fun _ =>
      alongside_pure _
  · exact (takeJump_trails trails_loopDepth _).bind fun _ => (trails_expect _).bind fun _ => alongside_pure _
  · exact (takeJump_trails trails_loopDepth _).bind fun _ => (trails_expect _).bind fun _ => alongside_pure _
  · exact (takeJump_trails trails_functionDepth _).bind fun _ => (optionalExpr_trails le _).bind fun _ =>
      alongside_pure _
  · exact exprStmt_trails le

omit le in
theorem declarations_trail : Trails ds (declarations (n + 1)) (declarations (m + 1)) := by
  refine atBlockEnd_trails.bind fun ends => ?_
  split
  · exact alongside_pure _
  · exact ih.declaration.bind fun _ => ih.declarations.bind fun _ => alongside_pure _

theorem function_trails : Trails ds (function (n + 1)) (function (m + 1)) :=
  trails_identifier.bind fun _ => (params_trails le).bind fun _ =>
    (trails_inFunction (trails_braced ih.declarations)).bind fun _ => alongside_pure _

omit le in
theorem methods_trail : Trails ds (methods (n + 1)) (methods (m + 1)) := by
  refine atBlockEnd_trails.bind fun ends => ?_
  split
  · exact alongside_pure _
  · exact ih.function.bind fun _ => ih.methods.bind fun _ => alongside_pure _

end Statements

theorem stmts_trail (le : n ≤ m) : StmtsTrail ds n m := by
  induction n generalizing m with
  | zero => exact ⟨alongside_starve, alongside_starve, alongside_starve, alongside_starve, alongside_starve⟩
  | succ n ih =>
    obtain ⟨m, rfl⟩ := Nat.exists_eq_succ_of_ne_zero (Nat.ne_of_gt (Nat.zero_lt_of_lt le))
    have le := Nat.le_of_succ_le_succ le
    have ih := ih le
    obtain ⟨p, q, same, same', trails⟩ := declaration_trails le ih
    exact ⟨same ▸ same' ▸ trails_recover trails, statement_trails le ih, declarations_trail ih,
      function_trails le ih, methods_trail ih⟩

theorem synchronize_diagnostics (c : Cursor) : c.synchronize.diagnostics = c.diagnostics := by
  unfold Cursor.synchronize Cursor.advance
  split <;> rfl

/-- A declaration that is dropped leaves an error that is not mild. -/
theorem declaration_drops (dropped : declaration n c = .ok none next) :
    ∃ d ∈ next.diagnostics, ¬ d.error.Mild := by
  cases n with
  | zero => cases dropped
  | succ n =>
    have stmts : StmtsTrail [] n n := stmts_trail (Nat.le_refl n)
    obtain ⟨p, _, same, -, trails⟩ := declaration_trails (Nat.le_refl n) stmts
    rw [same] at dropped
    rcases recover_eq_ok.mp dropped with ⟨_, -, kept⟩ | ⟨error, middle, failed, -, rfl⟩
    · cases kept
    · refine ⟨error, ?_, trails.hard (d := c) rfl failed⟩
      rw [synchronize_diagnostics]
      exact List.mem_append_right _ List.mem_cons_self

theorem program_trails (le : n ≤ m) : Trails ds (program n) (program m) := by
  induction n generalizing m with
  | zero => exact alongside_starve
  | succ n ih =>
    obtain ⟨m, rfl⟩ := Nat.exists_eq_succ_of_ne_zero (Nat.ne_of_gt (Nat.zero_lt_of_lt le))
    have le := Nat.le_of_succ_le_succ le
    refine trails_peek fun token => ?_
    split
    · exact alongside_pure _
    · exact (stmts_trail le).declaration.bind fun _ => (ih le).bind fun _ => alongside_pure _

end Behind

end Lox
