import Mathlib.Data.List.Forall2
import Lox.Proofs.Syntax.Alongside
import Lox.Proofs.Syntax.Positions

/-!
Jumps out of place. The depths of loops and functions are counted up around a body and down behind it, and
they are what they were wherever reading a phrase ends, with or without an error. So the errors of jumps are
exact: where no declaration is dropped, the jump keywords of a program are the jumps of its tree one by one,
and the keyword of a jump is reported if and only if nothing is around the jump that it could leave.
-/

namespace Lox

/-! ### The jumps of a tree -/

inductive JumpKind
  | breakLoop | continueLoop | returnValue
deriving DecidableEq

def JumpKind.keyword : JumpKind → Keyword
  | .breakLoop => .breakWord
  | .continueLoop => .continueWord
  | .returnValue => .returnWord

/-- The error of a jump that is out of place. -/
def JumpKind.error : JumpKind → StaticError
  | .breakLoop => .breakOutsideLoop
  | .continueLoop => .continueOutsideLoop
  | .returnValue => .returnOutsideFunction

/-- A statement that leaves a loop or a function, its line if the tree has it, and whether it has something to
leave. -/
structure Jump where
  kind : JumpKind
  line? : Option Nat
  placed : Bool
deriving DecidableEq

mutual

/-- The jumps in a statement from left to right, for a statement that is in a loop of its function or not, and in
a function or not. -/
def Stmt.jumps (inLoop inFunction : Bool) : Stmt → List Jump
  | .breakLoop => [⟨.breakLoop, none, inLoop⟩]
  | .continueLoop => [⟨.continueLoop, none, inLoop⟩]
  | .returnValue _ line => [⟨.returnValue, some line, inFunction⟩]
  | .block body => Stmt.jumpsAll inLoop inFunction body
  | .ifElse _ consequent none => consequent.jumps inLoop inFunction
  | .ifElse _ consequent (some alternative) =>
    consequent.jumps inLoop inFunction ++ alternative.jumps inLoop inFunction
  | .whileLoop _ body => body.jumps true inFunction
  | .forLoop none _ _ body => body.jumps true inFunction
  | .forLoop (some initial) _ _ body => initial.jumps inLoop inFunction ++ body.jumps true inFunction
  | .funDecl decl => decl.jumps
  | .classDecl _ _ methods _ => FunctionDecl.jumpsAll methods
  | .expr _ | .print _ _ | .varDecl _ _ _ => []

/-- A loop around a function is not around its body. -/
def FunctionDecl.jumps : FunctionDecl → List Jump
  | { name := _, params := _, body, line := _ } => Stmt.jumpsAll false true body

def Stmt.jumpsAll (inLoop inFunction : Bool) : List Stmt → List Jump
  | [] => []
  | s :: ss => s.jumps inLoop inFunction ++ Stmt.jumpsAll inLoop inFunction ss

def FunctionDecl.jumpsAll : List FunctionDecl → List Jump
  | [] => []
  | f :: fs => f.jumps ++ FunctionDecl.jumpsAll fs

end

mutual

/-- A statement is well placed if and only if each of its jumps has something to leave. -/
theorem Stmt.placed_iff (inLoop inFunction : Bool) (s : Stmt) :
    s.Placed inLoop inFunction ↔ ∀ jump ∈ s.jumps inLoop inFunction, jump.placed = true := by
  cases s with
  | block body => exact Stmt.placedAll_iff inLoop inFunction body
  | ifElse test consequent alternative? =>
    cases alternative? with
    | none => exact consequent.placed_iff inLoop inFunction
    | some alternative =>
      simp only [Stmt.Placed, Stmt.jumps, List.forall_mem_append, consequent.placed_iff, alternative.placed_iff]
  | whileLoop test body => exact body.placed_iff true inFunction
  | forLoop initial? test? step? body =>
    cases initial? with
    | none => exact body.placed_iff true inFunction
    | some initial =>
      simp only [Stmt.Placed, Stmt.jumps, List.forall_mem_append, initial.placed_iff, body.placed_iff]
  | funDecl decl => exact decl.placed_iff
  | classDecl name superclass? methods line => exact FunctionDecl.placedAll_iff methods
  | _ => simp [Stmt.Placed, Stmt.jumps]

theorem FunctionDecl.placed_iff (f : FunctionDecl) : f.Placed ↔ ∀ jump ∈ f.jumps, jump.placed = true := by
  obtain ⟨name, params, body, line⟩ := f
  exact Stmt.placedAll_iff false true body

theorem Stmt.placedAll_iff (inLoop inFunction : Bool) (ss : List Stmt) :
    Stmt.PlacedAll inLoop inFunction ss ↔ ∀ jump ∈ Stmt.jumpsAll inLoop inFunction ss, jump.placed = true := by
  cases ss with
  | nil => simp [Stmt.PlacedAll, Stmt.jumpsAll]
  | cons s ss =>
    simp only [Stmt.PlacedAll, Stmt.jumpsAll, List.forall_mem_append, s.placed_iff, Stmt.placedAll_iff _ _ ss]

theorem FunctionDecl.placedAll_iff (fs : List FunctionDecl) :
    FunctionDecl.PlacedAll fs ↔ ∀ jump ∈ FunctionDecl.jumpsAll fs, jump.placed = true := by
  cases fs with
  | nil => simp [FunctionDecl.PlacedAll, FunctionDecl.jumpsAll]
  | cons f fs =>
    simp only [FunctionDecl.PlacedAll, FunctionDecl.jumpsAll, List.forall_mem_append, f.placed_iff,
      FunctionDecl.placedAll_iff fs]

end

/-! ### Jumps, keywords and errors -/

def Token.jumps : Token → Bool
  | .keyword .breakWord | .keyword .continueWord | .keyword .returnWord => true
  | _ => false

def StaticError.misplaced : StaticError → Bool
  | .breakOutsideLoop | .continueOutsideLoop | .returnOutsideFunction => true
  | _ => false

/-- The jump keywords among tokens. -/
def jumpSpots (ls : List Located) : List Located :=
  ls.filter (·.token.jumps)

theorem jumpSpots_append (ls ms : List Located) : jumpSpots (ls ++ ms) = jumpSpots ls ++ jumpSpots ms :=
  List.filter_append ..

/-- The errors of misplaced jumps among diagnostics. -/
def misplaced (ds : List Diagnostic) : List Diagnostic :=
  ds.filter (·.error.misplaced)

/-- The jump is the one at a keyword. -/
def Jump.At (jump : Jump) (l : Located) : Prop :=
  l.token = .keyword jump.kind.keyword ∧ ∀ line, jump.line? = some line → l.line = line

/-- The errors of jumps at their keywords. -/
def Jump.errors : List Jump → List Located → List Diagnostic
  | jump :: jumps, l :: ls =>
    if jump.placed then Jump.errors jumps ls else .at l jump.kind.error :: Jump.errors jumps ls
  | _, _ => []

theorem Jump.errors_append {first second : List Jump} {ls ms : List Located} (at' : List.Forall₂ Jump.At first ls) :
    Jump.errors (first ++ second) (ls ++ ms) = Jump.errors first ls ++ Jump.errors second ms := by
  induction at' with
  | nil => rfl
  | cons _ _ ih =>
    simp only [List.cons_append, Jump.errors, ih]
    split <;> rfl

/-- Reading has passed the keywords of jumps, and reported those that are out of place. -/
def Cursor.Jumps (c next : Cursor) (jumps : List Jump) : Prop :=
  ∃ ls new, c.rest = ls ++ next.rest ∧ (∀ l ∈ ls, l.token ≠ .endOfInput) ∧
    next.diagnostics = c.diagnostics ++ new ∧ List.Forall₂ Jump.At jumps (jumpSpots ls) ∧
    misplaced new = Jump.errors jumps (jumpSpots ls)

open Parse

variable {α β : Type} {c d next last : Cursor} {n : Nat} {jumps first second : List Jump}

namespace Cursor

theorem Jumps.refl (c : Cursor) : c.Jumps c [] :=
  ⟨[], [], rfl, List.forall_mem_nil _, (List.append_nil _).symm, .nil, rfl⟩

theorem Jumps.trans (before : c.Jumps next first) (behind : next.Jumps last second) :
    c.Jumps last (first ++ second) := by
  obtain ⟨ls, new, split, inside, reported, at', errors⟩ := before
  obtain ⟨ms, new', split', inside', reported', at'', errors'⟩ := behind
  refine ⟨ls ++ ms, new ++ new', ?_, List.forall_mem_append.mpr ⟨inside, inside'⟩, ?_, ?_, ?_⟩
  · rw [split, split', List.append_assoc]
  · rw [reported', reported, List.append_assoc]
  · rw [jumpSpots_append]
    exact List.rel_append at' at''
  · rw [misplaced, List.filter_append, jumpSpots_append, Jump.errors_append at', ← errors, ← errors']
    rfl

theorem Jumps.quiet_trans (before : c.Jumps next []) (behind : next.Jumps last jumps) : c.Jumps last jumps :=
  before.trans behind

theorem Jumps.trans_quiet (before : c.Jumps next jumps) (behind : next.Jumps last []) : c.Jumps last jumps := by
  have both := before.trans behind
  rwa [List.append_nil] at both

/-- Other tokens than jump keywords are passed without a report. -/
theorem jumps_advance (plain : c.here.token.jumps = false) : c.Jumps c.advance [] := by
  by_cases atEnd : c.here.token = .endOfInput
  · rw [advance_of_end atEnd]
    exact .refl c
  · refine ⟨[c.here], [], ?_, by simpa using atEnd, ?_, ?_, ?_⟩
    · rw [advance_rest atEnd]
      exact rest_eq_cons atEnd
    · rw [advance, if_neg atEnd, List.append_nil]
    · rw [jumpSpots, List.filter_cons_of_neg (by simp [plain])]
      exact .nil
    · rfl

theorem jumps_fresh (c : Cursor) : c.Jumps { c with nextId := c.nextId + 1 } [] :=
  ⟨[], [], rfl, List.forall_mem_nil _, (List.append_nil _).symm, .nil, rfl⟩

theorem jumps_report (c : Cursor) (l : Located) : c.Jumps (c.report (.at l .invalidAssignmentTarget)) [] :=
  ⟨[], [.at l .invalidAssignmentTarget], rfl, List.forall_mem_nil _, rfl, .nil, rfl⟩

/-- The keyword of a jump is passed, and reported if the jump is out of place. -/
theorem jumps_keyword (jump : Jump) (at' : jump.At c.here) :
    c.Jumps (if jump.placed then c.advance else c.advance.report (.at c.here jump.kind.error)) [jump] := by
  obtain ⟨kind, line?, placed⟩ := jump
  have same : c.here.token = .keyword kind.keyword := at'.1
  have inside : c.here.token ≠ .endOfInput := fun atEnd => nomatch same.symm.trans atEnd
  have spots : jumpSpots [c.here] = [c.here] := by
    rw [jumpSpots, List.filter_cons_of_pos (by rw [same]; cases kind <;> rfl), List.filter_nil]
  have rest : c.rest = [c.here] ++ c.advance.rest := by
    rw [advance_rest inside]
    exact rest_eq_cons inside
  have kept : c.advance.diagnostics = c.diagnostics := by rw [advance, if_neg inside]
  cases placed with
  | true =>
    refine ⟨[c.here], [], rest, by simpa using inside, by rw [List.append_nil]; exact kept, ?_, ?_⟩
    · rw [spots]
      exact .cons at' .nil
    · rw [spots]
      rfl
  | false =>
    refine ⟨[c.here], [.at c.here kind.error], rest, by simpa using inside, ?_, ?_, ?_⟩
    · exact congrArg (· ++ _) kept
    · rw [spots]
      exact .cons at' .nil
    · rw [spots]
      cases kind <;> rfl

end Cursor

/-! ### Readers that meet no jump -/

/-- A reader meets no jump where it succeeds. -/
def Parse.Quiet (p : Parse α) : Prop :=
  ∀ c, p.Gives c fun _ next => c.Jumps next []

namespace Parse

variable {p : Parse α} {f : α → Parse β} {token : Token}

theorem Quiet.bind (first : p.Quiet) (second : ∀ a, (f a).Quiet) : (p >>= f).Quiet :=
  fun c => (first c).bind fun a next _ before => (second a next).imp fun _ _ _ behind => before.trans behind

theorem quiet_pure (a : α) : (pure a : Parse α).Quiet :=
  fun c => pure_gives (.refl c)

theorem quiet_starve : (starve : Parse α).Quiet :=
  fun _ => starve_gives

theorem quiet_expect (plain : token.jumps = false) : (expect token).Quiet := by
  intro c _ next read
  obtain ⟨same, rfl⟩ := expect_eq_ok.mp read
  exact Cursor.jumps_advance (same ▸ plain)

theorem quiet_accept (plain : token.jumps = false) : (accept token).Quiet := by
  intro c _ next read
  rcases accept_eq_ok.mp read with ⟨same, -, rfl⟩ | ⟨-, -, rfl⟩
  · exact Cursor.jumps_advance (same ▸ plain)
  · exact .refl _

theorem quiet_identifier : identifier.Quiet := by
  intro c found next read
  obtain ⟨same, -, rfl⟩ := identifier_eq_ok.mp read
  exact Cursor.jumps_advance (by rw [same]; rfl)

theorem quiet_fresh : fresh.Quiet := by
  intro c id next read
  cases read
  exact Cursor.jumps_fresh c

end Parse

theorem Token.jumps_of_joins {token : Token} (joins : token.joins = true) : token.jumps = false := by
  unfold Token.jumps
  split <;> first | rfl | exact Bool.noConfusion joins

/-- The places that are reached from a place without meeting a jump. -/
abbrev Cursor.Quietly (c d d' : Cursor) : Prop :=
  d' = d ∧ c.Jumps d []

/-- Expressions hold no jump keywords. -/
theorem jumps_alike (c : Cursor) : Alike c.Quietly where
  here related := related.1 ▸ rfl
  nextId related := related.1 ▸ rfl
  advance related joins :=
    ⟨related.1 ▸ rfl, related.2.trans (Cursor.jumps_advance (Token.jumps_of_joins joins))⟩
  fresh related := ⟨related.1 ▸ rfl, related.2.trans (Cursor.jumps_fresh _)⟩
  report l related := ⟨related.1 ▸ rfl, related.2.trans (Cursor.jumps_report _ l)⟩

theorem quiet_of_alongside {p : Parse α}
    (alongside : ∀ c : Cursor, Alongside c.Quietly c.Quietly c.Quietly p p) : p.Quiet := by
  intro c a next read
  have met := alongside c c c ⟨rfl, .refl c⟩
  rw [read] at met
  cases met with
  | ok related => exact related.2

theorem exprAt_quiet (n : Nat) (level : Level) : (exprAt n level).Quiet :=
  quiet_of_alongside fun c => (exprs_alongside (jumps_alike c) (Nat.le_refl n)).exprAt level

theorem moreItems_quiet (n : Nat) {closing : Token} (plain : closing.jumps = false) : (moreItems n closing).Quiet :=
  quiet_of_alongside fun c => (exprs_alongside (jumps_alike c) (Nat.le_refl n)).moreItems closing
    fun related here => ⟨related.1 ▸ rfl, related.2.trans (Cursor.jumps_advance (here ▸ plain))⟩

theorem moreParams_quiet (n : Nat) : (moreParams n).Quiet := by
  induction n with
  | zero => exact quiet_starve
  | succ n ih =>
    refine (quiet_accept rfl).bind fun taken => ?_
    split
    · exact quiet_identifier.bind fun _ => ih.bind fun _ => quiet_pure _
    · exact (quiet_expect rfl).bind fun _ => quiet_pure _

theorem params_quiet (n : Nat) : (params n).Quiet := by
  refine (quiet_expect rfl).bind fun _ => (quiet_accept rfl).bind fun taken => ?_
  split
  · exact quiet_pure _
  · exact quiet_identifier.bind fun _ => (moreParams_quiet n).bind fun _ => quiet_pure _

theorem superclass_quiet : superclass.Quiet := by
  intro c
  refine acceptEither_bind_gives (fun same => ?_) (pure_gives (.refl c))
  have plain : c.here.token.jumps = false := by rcases same with same | same <;> rw [same] <;> rfl
  have behind := (quiet_identifier.bind fun found => quiet_fresh.bind fun id =>
    quiet_pure (some (Use.mk id found.1 found.2))) c.advance
  exact behind.imp fun _ _ _ quiet => (Cursor.jumps_advance plain).trans quiet

theorem varDecl_quiet (n : Nat) : (varDecl n).Quiet := by
  refine quiet_identifier.bind fun found => (quiet_accept rfl).bind fun taken => ?_
  split
  · exact (exprAt_quiet n _).bind fun _ => (quiet_expect rfl).bind fun _ => quiet_pure _
  · exact (quiet_expect rfl).bind fun _ => quiet_pure _

theorem varDecl_jumpless : (varDecl n).Gives c fun s _ => ∀ inLoop inFunction, s.jumps inLoop inFunction = [] := by
  refine identifier_bind_gives fun name _ => accept_bind_gives (fun _ => ?_) fun _ => ?_
  · exact (exprAt_quiet n _ _).bind fun _ _ _ _ => expect_bind_gives fun _ => pure_gives fun _ _ => rfl
  · exact expect_bind_gives fun _ => pure_gives fun _ _ => rfl

theorem optionalExpr_quiet (n : Nat) {closing : Token} (plain : closing.jumps = false) :
    (optionalExpr n closing).Quiet := by
  refine (quiet_accept plain).bind fun taken => ?_
  split
  · exact quiet_pure _
  · exact (exprAt_quiet n _).bind fun _ => (quiet_expect plain).bind fun _ => quiet_pure _

theorem parenExpr_quiet (n : Nat) : (parenExpr n).Quiet :=
  (quiet_expect rfl).bind fun _ => (exprAt_quiet n _).bind fun _ => (quiet_expect rfl).bind fun _ => quiet_pure _

theorem exprStmt_quiet (n : Nat) : (exprStmt n).Quiet :=
  (exprAt_quiet n _).bind fun _ => (quiet_expect rfl).bind fun _ => quiet_pure _

theorem exprStmt_jumpless : (exprStmt n).Gives c fun s _ => ∀ inLoop inFunction, s.jumps inLoop inFunction = [] :=
  (exprAt_quiet n _ c).bind fun _ _ _ _ => expect_bind_gives fun _ => pure_gives fun _ _ => rfl

theorem forInitial_quiet (n : Nat) : (forInitial n).Quiet := by
  refine (quiet_accept rfl).bind fun taken => ?_
  split
  · exact quiet_pure _
  refine (quiet_accept rfl).bind fun taken => ?_
  split
  · exact (varDecl_quiet n).bind fun _ => quiet_pure _
  · exact (exprStmt_quiet n).bind fun _ => quiet_pure _

theorem forInitial_jumpless : (forInitial n).Gives c fun initial? _ =>
    ∀ inLoop inFunction test? step? body,
      (Stmt.forLoop initial? test? step? body).jumps inLoop inFunction = body.jumps true inFunction := by
  refine accept_bind_gives (fun _ => pure_gives fun _ _ _ _ _ => rfl) fun _ => ?_
  refine accept_bind_gives (fun _ => ?_) fun _ => ?_
  · refine varDecl_jumpless.bind fun s next _ jumpless => pure_gives fun inLoop inFunction test? step? body => ?_
    rw [Stmt.jumps, jumpless, List.nil_append]
  · refine exprStmt_jumpless.bind fun s next _ jumpless => pure_gives fun inLoop inFunction test? step? body => ?_
    rw [Stmt.jumps, jumpless, List.nil_append]

/-! ### Statements -/

/-- Nothing has been reported but errors that reading goes on behind. -/
def Cursor.Mildly (c : Cursor) : Prop :=
  ∀ d ∈ c.diagnostics, d.error.Mild

theorem Cursor.Onward.mild (moved : c.Onward next) (mild : next.Mildly) : c.Mildly :=
  fun d member => mild d (moved.diagnostics.subset member)

/-- The jumps of a statement that is read at a cursor. -/
def Stmt.jumpsAt (c : Cursor) (s : Stmt) : List Jump :=
  s.jumps (decide (0 < c.loops)) (decide (0 < c.functions))

def Stmt.jumpsAllAt (c : Cursor) (ss : List Stmt) : List Jump :=
  Stmt.jumpsAll (decide (0 < c.loops)) (decide (0 < c.functions)) ss

theorem Cursor.Onward.jumpsAt (moved : c.Onward next) (s : Stmt) : s.jumpsAt next = s.jumpsAt c := by
  rw [Stmt.jumpsAt, moved.loops, moved.functions]
  rfl

theorem Cursor.Onward.jumpsAllAt (moved : c.Onward next) (ss : List Stmt) :
    Stmt.jumpsAllAt next ss = Stmt.jumpsAllAt c ss := by
  rw [Stmt.jumpsAllAt, moved.loops, moved.functions]
  rfl

/-- Where only mild errors are reported, reading meets the jumps of the tree that it gives. -/
structure StmtsJump (n : Nat) : Prop where
  declaration : ∀ c, (declaration n).Gives c fun s? next =>
    next.Mildly → ∃ s, s? = some s ∧ c.Jumps next (s.jumpsAt c)
  statement : ∀ c, (statement n).Gives c fun s next => next.Mildly → c.Jumps next (s.jumpsAt c)
  declarations : ∀ c, (declarations n).Gives c fun ss next => next.Mildly → c.Jumps next (Stmt.jumpsAllAt c ss)
  function : ∀ c, (function n).Gives c fun f next => next.Mildly → c.Jumps next f.jumps
  methods : ∀ c, (methods n).Gives c fun fs next => next.Mildly → c.Jumps next (FunctionDecl.jumpsAll fs)

/-- Of a jump keyword the depth is asked, and a depth of 0 is reported. -/
theorem takeJump_jumps {depth : Parse Nat} (kind : JumpKind) (count : Cursor → Nat)
    (reads : ∀ c, depth c = .ok (count c) c) (kept : count c.advance = count c)
    (here : c.here.token = .keyword kind.keyword) :
    (takeJump depth kind.error).Gives c fun l next =>
      l = c.here ∧ ∀ line?, (∀ line, line? = some line → c.here.line = line) →
        c.Jumps next [⟨kind, line?, decide (0 < count c)⟩] := by
  refine take_bind_gives fun l last read => ?_
  obtain ⟨found, next, counted, read⟩ := bind_eq_ok.mp read
  rw [reads, kept, Reply.ok.injEq] at counted
  obtain ⟨rfl, rfl⟩ := counted
  by_cases none : count c = 0
  · rw [if_pos none] at read
    obtain ⟨_, next, reported, read⟩ := bind_eq_ok.mp read
    obtain ⟨rfl, rfl⟩ := pure_eq_ok.mp read
    obtain rfl := report_eq_ok.mp reported
    refine ⟨rfl, fun line? line => ?_⟩
    have met := Cursor.jumps_keyword ⟨kind, line?, false⟩ ⟨here, line⟩
    rw [none]
    exact met
  · rw [if_neg none] at read
    obtain ⟨rfl, rfl⟩ := pure_eq_ok.mp read
    refine ⟨rfl, fun line? line => ?_⟩
    have met := Cursor.jumps_keyword ⟨kind, line?, true⟩ ⟨here, line⟩
    rw [decide_eq_true (Nat.pos_of_ne_zero none)]
    exact met

section Statements

variable (ih : StmtsJump n)
include ih

theorem block_jumps : (braced (declarations n)).Gives c fun ss next =>
    next.Mildly → c.Jumps next (Stmt.jumpsAllAt c ss) := by
  refine Gives.braced fun opened => (ih.declarations _).imp fun ss next _ read closed mild => ?_
  have inner := read (next.onward_advance.mild mild)
  rw [c.onward_advance.jumpsAllAt] at inner
  exact ((Cursor.jumps_advance (by rw [opened]; rfl)).quiet_trans inner).trans_quiet
    (Cursor.jumps_advance (by rw [closed]; rfl))

theorem loop_jumps : (inLoop (statement n)).Gives c fun s next =>
    next.Mildly → c.Jumps next (s.jumps true (decide (0 < c.functions))) := by
  refine Gives.inLoop ((ih.statement _).imp fun s next _ read mild => ?_)
  have inner := read mild
  rw [Stmt.jumpsAt, decide_eq_true (Nat.succ_pos c.loops)] at inner
  exact inner

theorem methodsBody_jumps : (braced (methods n)).Gives c fun fs next =>
    next.Mildly → c.Jumps next (FunctionDecl.jumpsAll fs) := by
  refine Gives.braced fun opened => (ih.methods _).imp fun fs next _ read closed mild => ?_
  have inner := read (next.onward_advance.mild mild)
  exact ((Cursor.jumps_advance (by rw [opened]; rfl)).quiet_trans inner).trans_quiet
    (Cursor.jumps_advance (by rw [closed]; rfl))

theorem function_jumps : (function (n + 1)).Gives c fun f next => next.Mildly → c.Jumps next f.jumps := by
  refine (quiet_identifier c).bind fun found c₁ _ named => (params_quiet n c₁).bind fun names c₂ _ between => ?_
  have inner : (inFunction (braced (declarations n))).Gives c₂ fun body next =>
      next.Mildly → c₂.Jumps next (Stmt.jumpsAll false true body) := by
    refine Gives.inFunction ((block_jumps ih).imp fun body c₃ _ read mild => ?_)
    have met := read mild
    rw [Stmt.jumpsAllAt, decide_eq_true (Nat.succ_pos c₂.functions)] at met
    exact met
  exact inner.bind fun body c₃ _ read => pure_gives fun mild => (named.trans between).quiet_trans (read mild)

theorem declaration_jumps : (declaration (n + 1)).Gives c fun s? next =>
    next.Mildly → ∃ s, s? = some s ∧ c.Jumps next (s.jumpsAt c) := by
  intro s? next read mild
  cases s? with
  | none =>
    obtain ⟨d, member, hard⟩ := declaration_drops read
    exact absurd (mild d member) hard
  | some s =>
    refine ⟨s, rfl, ?_⟩
    refine Gives.kept (P := fun s next => next.Mildly → c.Jumps next (s.jumpsAt c)) (peek_bind_gives ?_) _ _ read
      s rfl mild
    split
    · next same =>
      have taken : c.Jumps c.advance [] := Cursor.jumps_advance (by rw [same]; rfl)
      refine take_bind_gives ((quiet_identifier _).bind fun found c₁ _ named => ?_)
      refine (superclass_quiet c₁).bind fun use? c₂ _ between => ?_
      exact (methodsBody_jumps ih).bind fun methods c₃ _ read => pure_gives fun mild =>
        (taken.trans (named.trans between)).quiet_trans (read mild)
    · next same =>
      have taken : c.Jumps c.advance [] := Cursor.jumps_advance (by rw [same]; rfl)
      exact take_bind_gives ((ih.function _).bind fun f c₁ _ read => pure_gives fun mild =>
        taken.quiet_trans (read mild))
    · next same =>
      have taken : c.Jumps c.advance [] := Cursor.jumps_advance (by rw [same]; rfl)
      refine take_bind_gives ((varDecl_quiet n _).imp fun s next read quiet _ => ?_)
      rw [Stmt.jumpsAt, varDecl_jumpless s next read]
      exact taken.trans quiet
    · exact ih.statement c

theorem ifElse_jumps (same : c.here.token = .keyword .ifWord) :
    Parse.Gives (do
      let _ ← take
      let test ← parenExpr n
      let consequent ← statement n
      if ← accept (.keyword .elseWord) then
        let alternative ← statement n
        return Stmt.ifElse test consequent (some alternative)
      else return Stmt.ifElse test consequent none) c fun s next => next.Mildly → c.Jumps next (s.jumpsAt c) := by
  have taken : c.Jumps c.advance [] := Cursor.jumps_advance (by rw [same]; rfl)
  refine take_bind_gives ((parenExpr_quiet n _).bind fun test c₁ movedTest between => ?_)
  refine (ih.statement c₁).bind fun consequent c₂ movedThen readThen => ?_
  have moved₁ := c.onward_advance.trans ((parenExpr_moves n).ok movedTest)
  have moved₂ := moved₁.trans ((stmts_move n).statement.ok movedThen)
  refine accept_bind_gives (fun more => ?_) fun _ => pure_gives fun mild => ?_
  · refine (ih.statement _).bind fun alternative c₃ movedElse readElse => pure_gives fun mild => ?_
    have mild₂ := c₂.onward_advance.mild (((stmts_move n).statement.ok movedElse).mild mild)
    have first := readThen mild₂
    have second := readElse mild
    rw [moved₁.jumpsAt] at first
    rw [(moved₂.trans c₂.onward_advance).jumpsAt] at second
    have skipped : c₂.Jumps c₂.advance [] := Cursor.jumps_advance (by rw [more]; rfl)
    exact (taken.trans between).quiet_trans (first.trans (skipped.quiet_trans second))
  · have first := readThen mild
    rw [moved₁.jumpsAt] at first
    exact (taken.trans between).quiet_trans first

theorem forLoop_jumps (same : c.here.token = .keyword .forWord) :
    Parse.Gives (do
      let _ ← take
      expect (.mark .leftParen)
      let initial? ← forInitial n
      let test? ← optionalExpr n (.mark .semicolon)
      let step? ← optionalExpr n (.mark .rightParen)
      let body ← inLoop (statement n)
      return Stmt.forLoop initial? test? step? body) c fun s next => next.Mildly → c.Jumps next (s.jumpsAt c) := by
  have taken : c.Jumps c.advance [] := Cursor.jumps_advance (by rw [same]; rfl)
  refine take_bind_gives ((quiet_expect rfl _).bind fun _ c₁ opened before => ?_)
  refine Gives.bind (fun initial? next read =>
    And.intro (forInitial_quiet n c₁ _ _ read) (forInitial_jumpless _ _ read)) fun initial? c₂ started initial => ?_
  refine (optionalExpr_quiet n rfl c₂).bind fun test? c₃ tested test => ?_
  refine (optionalExpr_quiet n rfl c₃).bind fun step? c₄ stepped step => ?_
  refine (loop_jumps ih).bind fun body c₅ _ read => pure_gives fun mild => ?_
  have moved₁ := (c.onward_advance.trans ((moves_expect _).ok opened)).trans ((forInitial_moves n).ok started)
  have moved₂ := moved₁.trans (((optionalExpr_moves n _).ok tested).trans ((optionalExpr_moves n _).ok stepped))
  have inner := read mild
  rw [moved₂.functions] at inner
  rw [Stmt.jumpsAt, initial.2]
  exact (taken.trans (before.trans (initial.1.trans (test.trans step)))).quiet_trans inner

theorem statement_jumps : (statement (n + 1)).Gives c fun s next => next.Mildly → c.Jumps next (s.jumpsAt c) := by
  refine peek_bind_gives ?_
  split
  · next same =>
    have taken : c.Jumps c.advance [] := Cursor.jumps_advance (by rw [same]; rfl)
    refine take_bind_gives ((exprAt_quiet n _ _).bind fun first c₁ _ quiet => ?_)
    exact (moreItems_quiet n rfl c₁).bind fun others c₂ _ quiet' => pure_gives fun _ =>
      taken.trans (quiet.trans quiet')
  · exact (block_jumps ih).bind fun body c₁ _ read => pure_gives read
  · next same => exact ifElse_jumps ih same
  · next same =>
    have taken : c.Jumps c.advance [] := Cursor.jumps_advance (by rw [same]; rfl)
    refine take_bind_gives ((parenExpr_quiet n _).bind fun test c₁ tested between => ?_)
    refine (loop_jumps ih).bind fun body c₂ _ read => pure_gives fun mild => ?_
    have inner := read mild
    rw [(c.onward_advance.trans ((parenExpr_moves n).ok tested)).functions] at inner
    exact (taken.trans between).quiet_trans inner
  · next same => exact forLoop_jumps ih same
  · next same =>
    refine (takeJump_jumps .breakLoop (·.loops) (fun _ => rfl) c.onward_advance.loops same).bind
      fun l c₁ _ met => ?_
    exact (quiet_expect rfl c₁).bind fun _ c₂ _ quiet => pure_gives fun _ =>
      (met.2 none fun _ none => nomatch none).trans_quiet quiet
  · next same =>
    refine (takeJump_jumps .continueLoop (·.loops) (fun _ => rfl) c.onward_advance.loops same).bind
      fun l c₁ _ met => ?_
    exact (quiet_expect rfl c₁).bind fun _ c₂ _ quiet => pure_gives fun _ =>
      (met.2 none fun _ none => nomatch none).trans_quiet quiet
  · next same =>
    refine (takeJump_jumps .returnValue (·.functions) (fun _ => rfl) c.onward_advance.functions same).bind
      fun l c₁ _ met => ?_
    refine (optionalExpr_quiet n rfl c₁).bind fun value? c₂ _ quiet => pure_gives fun _ => ?_
    exact (met.2 (some l.line) fun line line' => by rw [← met.1]; exact Option.some.inj line').trans_quiet quiet
  · refine (exprStmt_quiet n c).imp fun s next read quiet _ => ?_
    rw [Stmt.jumpsAt, exprStmt_jumpless s next read]
    exact quiet

theorem declarations_jump : (declarations (n + 1)).Gives c fun ss next =>
    next.Mildly → c.Jumps next (Stmt.jumpsAllAt c ss) := by
  refine atBlockEnd_bind_gives (fun _ => pure_gives fun _ => .refl c) fun _ => ?_
  refine (ih.declaration c).bind fun first? c₁ movedFirst readFirst => ?_
  refine (ih.declarations c₁).bind fun others c₂ moved readOthers => pure_gives fun mild => ?_
  obtain ⟨first, rfl, read⟩ := readFirst (((stmts_move n).declarations.ok moved).mild mild)
  have behind := readOthers mild
  rw [((stmts_move n).declaration.ok movedFirst).jumpsAllAt] at behind
  exact read.trans behind

theorem methods_jump : (methods (n + 1)).Gives c fun fs next =>
    next.Mildly → c.Jumps next (FunctionDecl.jumpsAll fs) := by
  refine atBlockEnd_bind_gives (fun _ => pure_gives fun _ => .refl c) fun _ => ?_
  refine (ih.function c).bind fun first c₁ _ readFirst => ?_
  refine (ih.methods c₁).bind fun others c₂ moved readOthers => pure_gives fun mild => ?_
  exact (readFirst (((stmts_move n).methods.ok moved).mild mild)).trans (readOthers mild)

end Statements

theorem stmts_jump (n : Nat) : StmtsJump n := by
  induction n with
  | zero =>
    exact ⟨fun _ => starve_gives, fun _ => starve_gives, fun _ => starve_gives, fun _ => starve_gives,
      fun _ => starve_gives⟩
  | succ n ih =>
    exact ⟨fun _ => declaration_jumps ih, fun _ => statement_jumps ih, fun _ => declarations_jump ih,
      fun _ => function_jumps ih, fun _ => methods_jump ih⟩

theorem program_jumps (n : Nat) : (program n).Gives c fun ss next =>
    next.here.token = .endOfInput ∧ (next.Mildly → c.Jumps next (Stmt.jumpsAllAt c ss)) := by
  induction n generalizing c with
  | zero => exact starve_gives
  | succ n ih =>
    refine peek_bind_gives ?_
    split
    · next ends => exact pure_gives ⟨ends, fun _ => .refl c⟩
    · refine ((stmts_jump n).declaration c).bind fun first? c₁ movedFirst readFirst => ?_
      refine ih.bind fun others c₂ moved readOthers => pure_gives ⟨readOthers.1, fun mild => ?_⟩
      obtain ⟨first, rfl, read⟩ := readFirst (((program_moves n).ok moved).mild mild)
      have behind := readOthers.2 mild
      rw [((stmts_move n).declaration.ok movedFirst).jumpsAllAt] at behind
      exact read.trans behind

/-! ### Depths -/

namespace Indexed

/-- The phrases that have a reader of their own, with what reading them gives. -/
inductive Phrase : Type → Type
  | token (expected : Token) : Phrase Unit
  | identifier : Phrase (String × Nat)
  | exprAt (level : Level) : Phrase Expr
  | operationsOn (level : Level) (left : Expr) : Phrase Expr
  | suffixesOf (object : Expr) : Phrase Expr
  | items (closing : Token) : Phrase (List Expr)
  | moreItems (closing : Token) : Phrase (List Expr)
  | primary : Phrase Expr
  | varDecl : Phrase Stmt
  | optionalExpr (closing : Token) : Phrase (Option Expr)
  | parenExpr : Phrase Expr
  | exprStmt : Phrase Stmt
  | forInitial : Phrase (Option Stmt)
  | params : Phrase (List String)
  | superclass : Phrase (Option Use)
  | declaration : Phrase (Option Stmt)
  | statement : Phrase Stmt
  | loopBody : Phrase Stmt
  | declarations : Phrase (List Stmt)
  | block : Phrase (List Stmt)
  | function : Phrase FunctionDecl
  | functionBody : Phrase (List Stmt)
  | methods : Phrase (List FunctionDecl)
  | program : Phrase (List Stmt)

/-- The reader of a phrase by number. -/
def Phrase.read (n : Nat) : Phrase α → Read α
  | .token expected => expect expected
  | .identifier => Indexed.identifier
  | .exprAt level => Indexed.exprAt n level
  | .operationsOn level left => Indexed.operationsOn n level left
  | .suffixesOf object => Indexed.suffixesOf n object
  | .items closing => Indexed.items n closing
  | .moreItems closing => Indexed.moreItems n closing
  | .primary => Indexed.primary n
  | .varDecl => Indexed.varDecl n
  | .optionalExpr closing => Indexed.optionalExpr n closing
  | .parenExpr => Indexed.parenExpr n
  | .exprStmt => Indexed.exprStmt n
  | .forInitial => Indexed.forInitial n
  | .params => Indexed.params n
  | .superclass => Indexed.superclass
  | .declaration => Indexed.declaration n
  | .statement => Indexed.statement n
  | .loopBody => inLoop (Indexed.statement n)
  | .declarations => Indexed.declarations n
  | .block => braced (Indexed.declarations n)
  | .function => Indexed.function n
  | .functionBody => inFunction (braced (Indexed.declarations n))
  | .methods => Indexed.methods n
  | .program => Indexed.program n

/-- A reader by number does what one over a cursor does that moves onward and has the depth it needs. -/
def Sound (n : Nat) (q : Read α) : Prop :=
  ∃ p : Parse α, Follows q p ∧ p.Moves ∧ ∀ c : Cursor, c.Within n → p.Answers c

theorem Phrase.sound (n : Nat) (phrase : Phrase α) : Sound n (phrase.read n) := by
  have exprs := exprs_follow n
  have exprs' := exprs_move n
  have exprs'' := exprs_answer n
  have stmts := stmts_follow n
  have stmts' := stmts_move n
  have stmts'' := stmts_answer n
  cases phrase with
  | token expected => exact ⟨_, follows_expect _, moves_expect _, fun _ _ => expect_answers _⟩
  | identifier => exact ⟨_, follows_identifier, moves_identifier, fun _ _ => identifier_answers⟩
  | exprAt level =>
    exact ⟨_, exprs.exprAt _, exprs'.exprAt _, fun c within => exprs''.exprAt _ c (within.mono (by omega))⟩
  | operationsOn level left =>
    exact ⟨_, exprs.operationsOn _ _, exprs'.operationsOn _ _, exprs''.operationsOn _ _⟩
  | suffixesOf object => exact ⟨_, exprs.suffixesOf _, exprs'.suffixesOf _, exprs''.suffixesOf _⟩
  | items closing =>
    exact ⟨_, exprs.items _, exprs'.items _, fun c within => exprs''.items _ c (within.mono (by omega))⟩
  | moreItems closing => exact ⟨_, exprs.moreItems _, exprs'.moreItems _, exprs''.moreItems _⟩
  | primary => exact ⟨_, exprs.primary, exprs'.primary, fun c within => exprs''.primary c (within.mono (by omega))⟩
  | varDecl => exact ⟨_, varDecl_follows n, varDecl_moves n, fun _ => varDecl_answers⟩
  | optionalExpr closing =>
    exact ⟨_, optionalExpr_follows n _, optionalExpr_moves n _, fun _ => optionalExpr_answers⟩
  | parenExpr => exact ⟨_, parenExpr_follows n, parenExpr_moves n, fun _ => parenExpr_answers⟩
  | exprStmt =>
    exact ⟨_, exprStmt_follows n, exprStmt_moves n, fun _ within => exprStmt_answers (within.mono (by omega))⟩
  | forInitial => exact ⟨_, forInitial_follows n, forInitial_moves n, fun _ => forInitial_answers⟩
  | params => exact ⟨_, params_follows n, params_moves n, fun _ => params_answers⟩
  | superclass => exact ⟨_, superclass_follows, superclass_moves, fun _ _ => superclass_answers⟩
  | declaration =>
    exact ⟨_, stmts.declaration, stmts'.declaration, fun c within => stmts''.declaration c (within.mono (by omega))⟩
  | statement =>
    exact ⟨_, stmts.statement, stmts'.statement, fun c within => stmts''.statement c (within.mono (by omega))⟩
  | loopBody =>
    exact ⟨_, stmts.statement.inLoop stmts'.statement, stmts'.statement.inLoop, fun c within =>
      Answers.inLoop (stmts''.statement _ ((within.nested _ c.functions).mono (by omega)))⟩
  | declarations => exact ⟨_, stmts.declarations, stmts'.declarations, stmts''.declarations⟩
  | block =>
    exact ⟨_, stmts.declarations.braced, stmts'.declarations.braced, fun c within =>
      braced_answers (stmts''.declarations _ (within.onward c.onward_advance))⟩
  | function =>
    exact ⟨_, stmts.function, stmts'.function, fun c within => stmts''.function c (within.mono (by omega))⟩
  | functionBody =>
    exact ⟨_, stmts.declarations.braced.inFunction stmts'.declarations.braced, stmts'.declarations.braced.inFunction,
      fun c within => Answers.inFunction (braced_answers (stmts''.declarations _
        ((within.nested _ _).onward (Cursor.onward_advance _))))⟩
  | methods => exact ⟨_, stmts.methods, stmts'.methods, stmts''.methods⟩
  | program => exact ⟨_, program_follows n, program_moves n, program_answers n⟩

variable {r : Reader}

theorem Reader.Ready.within (ready : r.Ready) (deep : 32 * r.tokens.length ≤ n) : r.cursor.Within n := by
  obtain ⟨stop, last, ends⟩ := ready.ended
  have inside := ready.inside
  refine ⟨⟨stop, ?_, ends⟩, ?_⟩
  · refine List.mem_of_getLast? (l := r.tokens.drop r.current) ?_
    rw [List.getLast?_drop, if_neg (by omega)]
    exact last
  · have shorter : r.cursor.rest.length ≤ r.tokens.length := by
      rw [Reader.cursor, List.length_drop]
      exact Nat.sub_le _ _
    omega

/-- Each phrase is read or fails, and the depths are the same behind it as in front of it. -/
theorem Sound.restores {q : Read α} (sound : Sound n q) (ready : r.Ready) (deep : 32 * r.tokens.length ≤ n) :
    ∃ next : Reader, ((∃ a, q r = .ok a next) ∨ ∃ e, q r = .failed e next) ∧
      next.loopDepth = r.loopDepth ∧ next.functionDepth = r.functionDepth := by
  obtain ⟨p, follows, moves, answers⟩ := sound
  have same := follows r ready
  have answered : p r.cursor ≠ .starved := answers _ (ready.within deep)
  generalize q r = x at same
  generalize read : p r.cursor = y at same answered
  cases same with
  | @ok a next leads =>
    have moved := moves.ok read
    exact ⟨next, .inl ⟨a, rfl⟩, moved.loops, moved.functions⟩
  | @failed e next leads =>
    have moved := moves.failed read
    exact ⟨next, .inr ⟨e, rfl⟩, moved.loops, moved.functions⟩
  | starved => exact absurd rfl answered

end Indexed

/-! ### Whole programs -/

theorem takeWhile_before_end {ls rest : List Located} {stop : Located} (inside : ∀ l ∈ ls, l.token ≠ .endOfInput)
    (stopped : stop.token = .endOfInput) :
    (ls ++ stop :: rest).takeWhile (fun l => decide (l.token ≠ .endOfInput)) = ls := by
  rw [List.takeWhile_append_of_pos (fun l member => decide_eq_true (inside l member)),
    List.takeWhile_cons_of_neg (by simp [stopped]), List.append_nil]

theorem closed_read {nextId : Nat} {tokens : List Located} {statements : List Stmt} {last : Cursor}
    (read : program (depthFor tokens) (.start nextId tokens) = .ok statements last) (mild : last.Mildly) :
    let spots := jumpSpots ((closed tokens).takeWhile fun l => l.token ≠ .endOfInput)
    let jumps := Stmt.jumpsAll false false statements
    List.Forall₂ Jump.At jumps spots ∧ misplaced last.diagnostics = Jump.errors jumps spots := by
  obtain ⟨ends, met⟩ := program_jumps _ _ _ read
  obtain ⟨ls, new, split, inside, reported, at', errors⟩ := met mild
  obtain ⟨stop, member, stopped⟩ := (start_within nextId tokens).ended
  -- The end of the input was not passed, so it is what reading stopped at.
  have rest : last.rest = last.here :: last.rest.tail := by
    rw [split] at member
    cases same : last.rest with
    | nil =>
      rw [same, List.append_nil] at member
      exact absurd stopped (inside stop member)
    | cons l rest => rw [Cursor.here, same]; rfl
  have passed : (closed tokens).takeWhile (fun l => decide (l.token ≠ .endOfInput)) = ls := by
    change closed tokens = ls ++ last.rest at split
    rw [split, rest]
    exact takeWhile_before_end inside ends
  rw [passed, reported]
  exact ⟨at', errors⟩

/-- Wherever reading a phrase ends, with or without an error, the depths of loops and functions are what they
were. So if no declaration of a program is dropped, its jump keywords are the jumps of its tree in their order,
and the errors of misplaced jumps are those of the jumps that have nothing to leave, each at its keyword. -/
theorem misplaced_jumps_exact (nextId : Nat) (tokens : List Located) :
    (∀ (α : Type) (phrase : Indexed.Phrase α) (n : Nat) (r : Indexed.Reader), r.Ready →
      32 * r.tokens.length ≤ n →
      ∃ next : Indexed.Reader,
        ((∃ a, phrase.read n r = .ok a next) ∨ ∃ e, phrase.read n r = .failed e next) ∧
        next.loopDepth = r.loopDepth ∧ next.functionDepth = r.functionDepth) ∧
    ∃ statements last, Indexed.run nextId tokens = .ok statements last ∧
      parse nextId tokens = ⟨statements, last.diagnostics, last.nextId⟩ ∧
      ((∀ call ∈ last.calls, call.failure? = none) →
        let spots := jumpSpots ((closed tokens).takeWhile fun l => l.token ≠ .endOfInput)
        let jumps := Stmt.jumpsAll false false statements
        List.Forall₂ Jump.At jumps spots ∧ misplaced last.diagnostics = Jump.errors jumps spots) := by
  refine ⟨fun α phrase n r ready deep => (phrase.sound n).restores ready deep, ?_⟩
  obtain ⟨statements, last, read, same, -, recorded⟩ := Indexed.run_recorded nextId tokens
  exact ⟨statements, last, read, Indexed.parse_of_read same, fun kept => closed_read same (recorded.mild kept)⟩

/-- The tokens of a `break`, a loop around a `continue` and a function with a `break` and a `return`, and a
`return`, on a line each. -/
def strayJumps : List Located :=
  [⟨.keyword .breakWord, 1⟩, ⟨.mark .semicolon, 1⟩,
    ⟨.keyword .whileWord, 2⟩, ⟨.mark .leftParen, 2⟩, ⟨.keyword .trueWord, 2⟩, ⟨.mark .rightParen, 2⟩,
    ⟨.mark .leftCurly, 2⟩, ⟨.keyword .continueWord, 3⟩, ⟨.mark .semicolon, 3⟩,
    ⟨.keyword .funWord, 4⟩, ⟨.identifier "f", 4⟩, ⟨.mark .leftParen, 4⟩, ⟨.mark .rightParen, 4⟩,
    ⟨.mark .leftCurly, 4⟩, ⟨.keyword .breakWord, 5⟩, ⟨.mark .semicolon, 5⟩,
    ⟨.keyword .returnWord, 6⟩, ⟨.mark .semicolon, 6⟩, ⟨.mark .rightCurly, 7⟩, ⟨.mark .rightCurly, 7⟩,
    ⟨.keyword .returnWord, 8⟩, ⟨.mark .semicolon, 8⟩]

/-- A reader in a loop of a function of a function, in front of a loop that is broken off. -/
def brokenLoop : Indexed.Reader :=
  ⟨[⟨.keyword .whileWord, 1⟩, ⟨.mark .leftParen, 1⟩, ⟨.endOfInput, 1⟩], 0, 0, 1, 2, [], [], []⟩

theorem misplaced_jumps_exact_stray :
    (∃ next : Indexed.Reader,
      ((∃ a, Indexed.statement 96 brokenLoop = .ok a next) ∨
        ∃ e, Indexed.statement 96 brokenLoop = .failed e next) ∧
      next.loopDepth = 1 ∧ next.functionDepth = 2) ∧
    ∃ statements last, Indexed.run 0 strayJumps = .ok statements last ∧
      (∀ call ∈ last.calls, call.failure? = none) ∧
      misplaced last.diagnostics = Jump.errors (Stmt.jumpsAll false false statements)
        [⟨.keyword .breakWord, 1⟩, ⟨.keyword .continueWord, 3⟩, ⟨.keyword .breakWord, 5⟩, ⟨.keyword .returnWord, 6⟩,
          ⟨.keyword .returnWord, 8⟩] ∧
      misplaced last.diagnostics =
        [.at ⟨.keyword .breakWord, 1⟩ .breakOutsideLoop, .at ⟨.keyword .breakWord, 5⟩ .breakOutsideLoop,
          .at ⟨.keyword .returnWord, 8⟩ .returnOutsideFunction] := by
  obtain ⟨restores, statements, last, read, -, exactly⟩ := misplaced_jumps_exact 0 strayJumps
  refine ⟨restores Stmt .statement 96 brokenLoop ⟨by decide, _, rfl, rfl⟩ (by decide), statements, last, read, ?_⟩
  have kept : ((Indexed.run 0 strayJumps).next?.map (·.calls.map (·.failure?))) =
      some (List.replicate 7 none) := by decide +kernel
  have shown : (Indexed.run 0 strayJumps).next?.map (misplaced ·.diagnostics) =
      some [.at ⟨.keyword .breakWord, 1⟩ .breakOutsideLoop, .at ⟨.keyword .breakWord, 5⟩ .breakOutsideLoop,
        .at ⟨.keyword .returnWord, 8⟩ .returnOutsideFunction] := by decide +kernel
  rw [read, Indexed.Outcome.next?, Option.map_some, Option.some.injEq] at kept shown
  have unfailed : ∀ call ∈ last.calls, call.failure? = none := fun call member =>
    List.eq_of_mem_replicate (kept ▸ List.mem_map_of_mem member)
  have spots : jumpSpots ((closed strayJumps).takeWhile fun l => l.token ≠ .endOfInput) =
      [⟨.keyword .breakWord, 1⟩, ⟨.keyword .continueWord, 3⟩, ⟨.keyword .breakWord, 5⟩, ⟨.keyword .returnWord, 6⟩,
        ⟨.keyword .returnWord, 8⟩] := by decide +kernel
  exact ⟨unfailed, spots ▸ (exactly unfailed).2, shown⟩

end Lox
