import Mathlib.Order.Bounds.Basic
import Lox.Proofs.Syntax.Depth
import Lox.Proofs.Syntax.Indexed

/-!
A reader by number does what a cursor does. `Reader.cursor` forgets the tokens that have been passed; each
reading by number comes to the same as the reading over that cursor, and never crashes. What a reader
records stays in order all along: it has stood at its own tokens only, and each declaration took it onward.
-/

namespace Lox

open Parse

namespace Indexed

/-! ### What is recorded -/

/-- A place where a statement may start, for a reader that comes from another place: the end of the input, a
keyword that starts a statement, or behind a semicolon that was passed. -/
def Boundary (tokens : List Located) (origin place : Nat) : Prop :=
  (∃ l, tokens[place]? = some l ∧ (l.token = .endOfInput ∨ l.token.startsStatement = true)) ∨
  (origin < place ∧ ∃ l, tokens[place - 1]? = some l ∧ l.token = .mark .semicolon)

/-- The declaration took the reader onward, unless it was at the end. -/
def Call.Advances (tokens : List Located) (call : Call) : Prop :=
  ∀ l, tokens[call.start]? = some l → l.token ≠ .endOfInput → call.start < call.stop

/-- Reading goes on from the first boundary behind the place where the declaration failed, or at that place if
it is the end. -/
def Call.Resumes (tokens : List Located) (call : Call) : Prop :=
  ∀ place, call.failure? = some place → ∃ l, tokens[place]? = some l ∧
    (l.token = .endOfInput → call.stop = place) ∧
    (l.token ≠ .endOfInput → IsLeast {next | place < next ∧ Boundary tokens place next} call.stop)

/-- The record of a reader is in order. As long as no declaration has failed, only mild errors are reported. -/
structure Reader.Recorded (r : Reader) : Prop where
  trail : ∀ place ∈ r.trail, place < r.tokens.length
  advances : ∀ call ∈ r.calls, call.Advances r.tokens
  resumes : ∀ call ∈ r.calls, call.Resumes r.tokens
  mild : (∀ call ∈ r.calls, call.failure? = none) → ∀ d ∈ r.diagnostics, d.error.Mild

/-- A reader stands at one of its tokens, and the last of them is the end of the input. -/
structure Reader.Ready (r : Reader) : Prop where
  inside : r.current < r.tokens.length
  ended : ∃ stop, r.tokens.getLast? = some stop ∧ stop.token = .endOfInput

/-- The place of a reader without the tokens that it has passed. -/
def Reader.cursor (r : Reader) : Cursor :=
  ⟨r.tokens.drop r.current, r.nextId, r.loopDepth, r.functionDepth, r.diagnostics⟩

structure Reader.LeadsTo (r next : Reader) : Prop where
  ready : next.Ready
  tokens : next.tokens = r.tokens
  recorded : r.Recorded → next.Recorded

namespace Reader

variable {r next last : Reader}

theorem LeadsTo.trans (first : r.LeadsTo next) (second : next.LeadsTo last) : r.LeadsTo last :=
  ⟨second.ready, second.tokens.trans first.tokens, fun recorded => second.recorded (first.recorded recorded)⟩

theorem Ready.leadsTo_self (ready : r.Ready) : r.LeadsTo r :=
  ⟨ready, rfl, id⟩

theorem Ready.here (ready : r.Ready) : r.tokens[r.current]? = some r.cursor.here := by
  rw [List.getElem?_eq_getElem ready.inside, Cursor.here, cursor, List.drop_eq_getElem_cons ready.inside]
  rfl

/-- A token that is not the end is not the last one. -/
theorem Ready.before_last (ready : r.Ready) (inside : r.cursor.here.token ≠ .endOfInput) :
    r.current + 1 < r.tokens.length := by
  obtain ⟨stop, last, ends⟩ := ready.ended
  refine Nat.lt_of_le_of_ne ready.inside fun same => inside ?_
  rw [List.getLast?_eq_getElem?, ← same, Nat.add_sub_cancel, ready.here, Option.some.injEq] at last
  rw [last]
  exact ends

theorem Ready.goTo (ready : r.Ready) {place : Nat} (inside : place < r.tokens.length) :
    r.LeadsTo (r.goTo place) := by
  refine ⟨⟨inside, ready.ended⟩, rfl, fun recorded => ⟨?_, recorded.advances, recorded.resumes, recorded.mild⟩⟩
  intro other member
  rcases List.mem_cons.mp member with rfl | earlier
  · exact inside
  · exact recorded.trail other earlier

theorem cursor_goTo_succ (inside : r.cursor.here.token ≠ .endOfInput) :
    (r.goTo (r.current + 1)).cursor = r.cursor.advance := by
  unfold Cursor.advance
  rw [if_neg inside]
  simp only [cursor, goTo, List.tail_drop]

end Reader

/-! ### Readings side by side -/

/-- A reading by number comes to the same as one over a cursor. -/
inductive Matches {α : Type} (r : Reader) : Outcome α → Reply α → Prop
  | ok {a : α} {next : Reader} : r.LeadsTo next → Matches r (.ok a next) (.ok a next.cursor)
  | failed {e : Diagnostic} {next : Reader} : r.LeadsTo next → Matches r (.failed e next) (.failed e next.cursor)
  | starved : Matches r .starved .starved

def Follows {α : Type} (q : Read α) (p : Parse α) : Prop :=
  ∀ r : Reader, r.Ready → Matches r (q r) (p r.cursor)

variable {α β : Type} {r next : Reader} {q : Read α} {p : Parse α}

theorem Matches.after {x : Outcome α} {y : Reply α} (leads : r.LeadsTo next) (same : Matches next x y) :
    Matches r x y := by
  cases same with
  | ok behind => exact .ok (leads.trans behind)
  | failed behind => exact .failed (leads.trans behind)
  | starved => exact .starved

theorem Matches.ok_of {a : α} {c : Cursor} (leads : r.LeadsTo next) (same : next.cursor = c) :
    Matches r (.ok a next) (.ok a c) :=
  same ▸ .ok leads

theorem bind_of_ok {a : α} {g : α → Read β} (read : q r = .ok a next) : (q >>= g) r = g a next := by
  simp only [Bind.bind, Read.bind, read]

theorem Follows.bind {g : α → Read β} {f : α → Parse β} (first : Follows q p)
    (second : ∀ a, Follows (g a) (f a)) : Follows (q >>= g) (p >>= f) := by
  intro r ready
  have same := first r ready
  change Matches r (Read.bind q g r) (Parse.bind p f r.cursor)
  unfold Read.bind Parse.bind
  generalize q r = x at same
  generalize p r.cursor = y at same
  cases same with
  | ok leads => exact (second _ _ leads.ready).after leads
  | failed leads => exact .failed leads
  | starved => exact .starved

theorem follows_pure (a : α) : Follows (pure a) (pure a) :=
  fun _ ready => .ok ready.leadsTo_self

theorem follows_starve : Follows (starve : Read α) Parse.starve :=
  fun _ _ => .starved

/-! ### Looking and taking -/

theorem spot_eq (ready : r.Ready) : spot r = .ok r.cursor.here r := by
  simp only [spot, lookUp, ready.here, Option.elim_some]

theorem spot_bind (ready : r.Ready) (g : Located → Read β) : (spot >>= g) r = g r.cursor.here r :=
  bind_of_ok (spot_eq ready)

theorem peek_bind (ready : r.Ready) (g : Token → Read β) : (peek >>= g) r = g r.cursor.here.token r :=
  bind_of_ok (spot_bind ready fun l => pure l.token)

/-- A reader behind the token at which another one stands. -/
structure Reader.Took (r next : Reader) : Prop where
  leads : r.LeadsTo next
  cursor : next.cursor = r.cursor.advance
  stays : r.cursor.here.token = .endOfInput → next = r
  moves : r.cursor.here.token ≠ .endOfInput → next = r.goTo (r.current + 1)

theorem advance_eq (ready : r.Ready) : ∃ next, advance r = .ok r.cursor.here next ∧ r.Took next := by
  unfold advance
  rw [spot_bind ready]
  by_cases atEnd : r.cursor.here.token = .endOfInput
  · rw [if_pos atEnd]
    exact ⟨r, rfl, ready.leadsTo_self, (Cursor.advance_of_end atEnd).symm, fun _ => rfl,
      fun inside => absurd atEnd inside⟩
  · rw [if_neg atEnd]
    exact ⟨r.goTo (r.current + 1), rfl, ready.goTo (ready.before_last atEnd), Reader.cursor_goTo_succ atEnd,
      fun ends => absurd ends atEnd, fun _ => rfl⟩

theorem follows_advance : Follows advance take := by
  intro r ready
  obtain ⟨next, taken, took⟩ := advance_eq ready
  rw [taken]
  exact .ok_of took.leads took.cursor

theorem follows_peek : Follows peek Parse.peek := by
  intro r ready
  rw [peek, spot_bind ready]
  exact .ok ready.leadsTo_self

theorem follows_acceptIf {wanted : Token → Bool} {accepts : Parse Bool}
    (same : ∀ c, accepts c = if wanted c.here.token then .ok true c.advance else .ok false c) :
    Follows (acceptIf wanted) accepts := by
  intro r ready
  rw [same, acceptIf, peek_bind ready]
  split
  · obtain ⟨next, taken, took⟩ := advance_eq ready
    rw [bind_of_ok taken]
    exact .ok_of took.leads took.cursor
  · exact .ok ready.leadsTo_self

theorem follows_accept (token : Token) : Follows (accept token) (Parse.accept token) :=
  follows_acceptIf fun c => by simp only [Parse.accept, decide_eq_true_eq]

theorem follows_acceptEither (first second : Token) :
    Follows (acceptEither first second) (Parse.acceptEither first second) :=
  follows_acceptIf fun c => by simp only [Parse.acceptEither, Bool.or_eq_true, decide_eq_true_eq]

theorem follows_expect (token : Token) : Follows (expect token) (Parse.expect token) := by
  intro r ready
  rw [expect, Parse.expect, spot_bind ready]
  split
  · obtain ⟨next, taken, took⟩ := advance_eq ready
    rw [bind_of_ok taken]
    exact .ok_of took.leads took.cursor
  · exact .failed ready.leadsTo_self

theorem follows_identifier : Follows identifier Parse.identifier := by
  intro r ready
  rw [identifier, Parse.identifier, spot_bind ready]
  cases same : r.cursor.here.token with
  | identifier name =>
    obtain ⟨next, taken, took⟩ := advance_eq ready
    simp only
    rw [bind_of_ok taken]
    exact .ok_of took.leads took.cursor
  | _ => exact .failed ready.leadsTo_self

theorem follows_fresh : Follows fresh Parse.fresh :=
  fun _ ready => .ok ⟨⟨ready.inside, ready.ended⟩, rfl, fun recorded =>
    ⟨recorded.trail, recorded.advances, recorded.resumes, recorded.mild⟩⟩

theorem follows_loopDepth : Follows loopDepth Parse.loopDepth :=
  fun _ ready => .ok ready.leadsTo_self

theorem follows_functionDepth : Follows functionDepth Parse.functionDepth :=
  fun _ ready => .ok ready.leadsTo_self

theorem follows_report (l : Located) (error : StaticError) (mild : error.Mild) :
    Follows (report l error) (Parse.report l error) := by
  refine fun r ready => .ok ⟨⟨ready.inside, ready.ended⟩, rfl, fun recorded =>
    ⟨recorded.trail, recorded.advances, recorded.resumes, fun unfailed d member => ?_⟩⟩
  rcases List.mem_append.mp member with earlier | new
  · exact recorded.mild unfailed d earlier
  · rw [List.mem_singleton.mp new]
    exact mild

theorem Follows.braced (follows : Follows q p) : Follows (braced q) (Parse.braced p) :=
  (follows_expect _).bind fun _ => follows.bind fun _ => (follows_expect _).bind fun _ => follows_pure _

/-! ### Depths -/

theorem Reader.LeadsTo.nested {loops functions loops' functions' : Nat}
    (leads : { r with loopDepth := loops, functionDepth := functions }.LeadsTo next) :
    r.LeadsTo { next with loopDepth := loops', functionDepth := functions' } := by
  refine ⟨⟨leads.ready.inside, leads.ready.ended⟩, leads.tokens, fun recorded => ?_⟩
  have inner := leads.recorded ⟨recorded.trail, recorded.advances, recorded.resumes, recorded.mild⟩
  exact ⟨inner.trail, inner.advances, inner.resumes, inner.mild⟩

/-- The depths are counted down to what they were, since reading at the inner depths came back to them. -/
theorem Follows.nest {leave : Reader → Option Reader} {loops functions : Nat} (follows : Follows q p)
    (moves : p.Moves) (ready : r.Ready)
    (leaves : ∀ last : Reader, last.loopDepth = loops → last.functionDepth = functions →
      leave last = some { last with loopDepth := r.loopDepth, functionDepth := r.functionDepth }) :
    Matches r ((q { r with loopDepth := loops, functionDepth := functions }).behind leave)
      ((p { r.cursor with loops := loops, functions := functions }).nest r.loopDepth r.functionDepth) := by
  have same := follows { r with loopDepth := loops, functionDepth := functions } ⟨ready.inside, ready.ended⟩
  change Matches _ _ (p { r.cursor with loops := loops, functions := functions }) at same
  generalize q { r with loopDepth := loops, functionDepth := functions } = x at same
  generalize read : p { r.cursor with loops := loops, functions := functions } = y at same
  cases same with
  | @ok a last leads =>
    have onward := moves.ok read
    simp only [Outcome.behind, leaves last onward.loops onward.functions, Option.elim_some]
    exact .ok leads.nested
  | @failed error last leads =>
    have onward := moves.failed read
    simp only [Outcome.behind, leaves last onward.loops onward.functions, Option.elim_some]
    exact .failed leads.nested
  | starved => exact .starved

theorem Follows.inLoop (follows : Follows q p) (moves : p.Moves) : Follows (inLoop q) (Parse.inLoop p) := by
  refine fun r ready => follows.nest moves ready fun last loops functions => ?_
  rw [Reader.leaveLoop, if_neg (by omega), loops, ← functions, Nat.add_sub_cancel]

theorem Follows.inFunction (follows : Follows q p) (moves : p.Moves) :
    Follows (inFunction q) (Parse.inFunction p) := by
  refine fun r ready => follows.nest moves ready fun last loops functions => ?_
  rw [Reader.leaveFunction, if_neg (by omega), functions, Nat.add_sub_cancel]

/-! ### Recovery -/

theorem boundary_iff {tokens : List Located} {origin place : Nat} {l last : Located}
    (here : tokens[place]? = some l) (before : tokens[place - 1]? = some last) (passed : origin < place) :
    Boundary tokens origin place ↔
      l.token = .endOfInput ∨ last.token = .mark .semicolon ∨ l.token.startsStatement = true := by
  simp only [Boundary, here, before, passed, Option.some.injEq, exists_eq_left', true_and]
  tauto

/-- A reader that has gone to another place, over places of its own. -/
structure Reader.Went (r next : Reader) : Prop where
  same : next = { r with current := next.current, trail := next.trail }
  inside : next.current < r.tokens.length
  trail : ∀ place ∈ next.trail, place ∈ r.trail ∨ place < r.tokens.length

theorem Reader.Ready.went (ready : r.Ready) : r.Went r :=
  ⟨rfl, ready.inside, fun _ => .inl⟩

theorem Reader.Went.behind {place : Nat} (inside : place < r.tokens.length) (went : (r.goTo place).Went next) :
    r.Went next := by
  refine ⟨went.same, went.inside, fun other member => ?_⟩
  rcases went.trail other member with known | within
  · rcases List.mem_cons.mp known with rfl | earlier
    · exact .inr inside
    · exact .inl earlier
  · exact .inr within

/-- Passing stops here, if the last token passed is the one given. -/
def Reader.Stops (r : Reader) (last : Token) : Prop :=
  r.cursor.here.token = .endOfInput ∨ last = .mark .semicolon ∨ r.cursor.here.token.startsStatement = true

instance (last : Token) : Decidable (r.Stops last) :=
  inferInstanceAs (Decidable (_ ∨ _ ∨ _))

theorem previous_eq {last : Located} (before : r.tokens[r.current - 1]? = some last) : previous r = .ok last r := by
  simp only [previous, lookUp, before, Option.elim_some]

theorem pass_stops {n : Nat} {last : Located} (ready : r.Ready) (before : r.tokens[r.current - 1]? = some last)
    (stops : r.Stops last.token) : pass (n + 1) r = .ok () r := by
  rw [pass, spot_bind ready]
  split
  · rfl
  · next inside =>
    rw [bind_of_ok (previous_eq before)]
    rcases stops with atEnd | semicolon | starts
    · exact absurd atEnd inside
    · rw [if_pos semicolon]
      rfl
    · split <;> rfl

theorem pass_goes {n : Nat} {last : Located} (ready : r.Ready) (before : r.tokens[r.current - 1]? = some last)
    (goes : ¬ r.Stops last.token) : pass (n + 1) r = pass n (r.goTo (r.current + 1)) := by
  have inside : r.cursor.here.token ≠ .endOfInput := fun atEnd => goes (.inl atEnd)
  obtain ⟨middle, taken, took⟩ := advance_eq ready
  rw [pass, spot_bind ready, if_neg inside, bind_of_ok (previous_eq before),
    if_neg fun semicolon => goes (.inr (.inl semicolon)), if_neg fun starts => goes (.inr (.inr starts)),
    bind_of_ok taken, took.moves inside]

/-- Reading over a cursor stops at the same token. -/
theorem nextStatement_at (ready : r.Ready) (last : Token) : nextStatement last (r.tokens.drop r.current) =
    if r.Stops last then r.tokens.drop r.current
    else nextStatement r.cursor.here.token (r.tokens.drop (r.current + 1)) := by
  have split : r.tokens.drop r.current = r.cursor.here :: r.tokens.drop (r.current + 1) := by
    rw [List.drop_eq_getElem_cons ready.inside, List.cons.injEq]
    exact ⟨Option.some.inj ((List.getElem?_eq_getElem ready.inside).symm.trans ready.here), rfl⟩
  rw [split, nextStatement]
  refine if_congr ?_ rfl rfl
  simp only [Bool.or_eq_true, decide_eq_true_eq, or_assoc, Reader.Stops]

/-- A reader that has passed tokens, and where reading goes on behind them. -/
structure Reader.Passed (r : Reader) (origin : Nat) (last : Token) (next : Reader) : Prop extends r.Went next where
  rest : r.tokens.drop next.current = nextStatement last (r.tokens.drop r.current)
  least : IsLeast {place | r.current ≤ place ∧ Boundary r.tokens origin place} next.current

/-- No boundary lies between the place where passing began and the one where it is, so it stops at the first. -/
theorem pass_eq {n origin : Nat} {last : Located} (ready : r.Ready) (passed : origin < r.current)
    (before : r.tokens[r.current - 1]? = some last) (enough : r.tokens.length ≤ n + r.current) :
    ∃ next, pass n r = .ok () next ∧ r.Passed origin last.token next := by
  induction n generalizing r last with
  | zero => exact absurd ready.inside (by omega)
  | succ n ih =>
    have boundary : Boundary r.tokens origin r.current ↔ r.Stops last.token :=
      boundary_iff ready.here before passed
    by_cases stops : r.Stops last.token
    · refine ⟨r, pass_stops ready before stops, ready.went, ?_, ⟨Nat.le_refl _, boundary.mpr stops⟩,
        fun _ later => later.1⟩
      rw [nextStatement_at ready, if_pos stops]
    · have further : r.current + 1 < r.tokens.length := ready.before_last fun atEnd => stops (.inl atEnd)
      obtain ⟨next, rest, passes⟩ := ih (ready.goTo further).ready (Nat.lt_succ_of_lt passed) ready.here
        (by simp only [Reader.goTo]; omega)
      refine ⟨next, (pass_goes ready before stops).trans rest, passes.toWent.behind further, ?_,
        ⟨Nat.le_of_succ_le passes.least.1.1, passes.least.1.2⟩, ?_⟩
      · rw [nextStatement_at ready, if_neg stops]
        exact passes.rest
      · rintro place ⟨le, bounds⟩
        refine passes.least.2 ⟨Nat.lt_of_le_of_ne le ?_, bounds⟩
        rintro rfl
        exact stops (boundary.mp bounds)

/-- A reader that stands where reading goes on behind a failure. -/
structure Reader.Resumed (r next : Reader) : Prop extends r.Went next where
  cursor : next.cursor = r.cursor.synchronize
  atEnd : r.cursor.here.token = .endOfInput → next.current = r.current
  least : r.cursor.here.token ≠ .endOfInput →
    IsLeast {place | r.current < place ∧ Boundary r.tokens r.current place} next.current

theorem Reader.Ready.synchronize_of_end (ready : r.Ready) (atEnd : r.cursor.here.token = .endOfInput) :
    r.cursor.synchronize = r.cursor := by
  have stops : nextStatement r.cursor.here.token r.cursor.rest = r.cursor.rest :=
    (nextStatement_at ready _).trans (if_pos (.inl atEnd))
  rw [Cursor.synchronize, Cursor.advance_of_end atEnd, stops]

theorem synchronize_eq (ready : r.Ready) : ∃ next, synchronize r = .ok () next ∧ r.Resumed next := by
  obtain ⟨middle, taken, took⟩ := advance_eq ready
  rw [synchronize, bind_of_ok taken]
  by_cases atEnd : r.cursor.here.token = .endOfInput
  · obtain rfl := took.stays atEnd
    obtain ⟨n, some⟩ : ∃ n, middle.tokens.length = n + 1 :=
      Nat.exists_eq_add_one.mpr (Nat.zero_lt_of_lt ready.inside)
    refine ⟨middle, ?_, ready.went, (ready.synchronize_of_end atEnd).symm, fun _ => rfl,
      fun inside => absurd atEnd inside⟩
    rw [some, pass, spot_bind ready, if_pos atEnd]
    rfl
  · obtain rfl := took.moves atEnd
    obtain ⟨next, rest, passes⟩ := pass_eq took.leads.ready (Nat.lt_succ_self _) ready.here
      (n := r.tokens.length) (Nat.le_add_right _ _)
    refine ⟨next, rest, passes.toWent.behind (ready.before_last atEnd), ?_, fun ends => absurd ends atEnd,
      fun _ => passes.least⟩
    rw [passes.same, Cursor.synchronize, ← took.cursor]
    simp only [Reader.cursor, Cursor.mk.injEq, and_true]
    exact passes.rest

theorem advances_of_shorter {failure? : Option Nat} (ready : r.Ready) (tokens : next.tokens = r.tokens)
    (shorter : r.cursor.here.token ≠ .endOfInput → next.cursor.rest.length < r.cursor.rest.length) :
    Call.Advances next.tokens ⟨r.current, failure?, next.current⟩ := by
  intro l here inside
  rw [tokens, ready.here, Option.some.injEq] at here
  subst here
  have shorter := shorter inside
  have started := ready.inside
  simp only [Reader.cursor, List.length_drop, tokens] at shorter
  change r.current < next.current
  omega

theorem recorded_read (ready : r.Ready) (leads : r.LeadsTo next)
    (shorter : r.cursor.here.token ≠ .endOfInput → next.cursor.rest.length < r.cursor.rest.length) :
    r.LeadsTo { next with calls := ⟨r.current, none, next.current⟩ :: next.calls } := by
  refine ⟨⟨leads.ready.inside, leads.ready.ended⟩, leads.tokens, fun recorded => ?_⟩
  have behind := leads.recorded recorded
  have advances : Call.Advances next.tokens ⟨r.current, none, next.current⟩ :=
    advances_of_shorter ready leads.tokens shorter
  have resumes : Call.Resumes next.tokens ⟨r.current, none, next.current⟩ := fun _ failed => nomatch failed
  exact ⟨behind.trail, List.forall_mem_cons.mpr ⟨advances, behind.advances⟩,
    List.forall_mem_cons.mpr ⟨resumes, behind.resumes⟩,
    fun unfailed => behind.mild (List.forall_mem_cons.mp unfailed).2⟩

theorem recorded_failure {middle last : Reader} {error : Diagnostic} (ready : r.Ready) (leads : r.LeadsTo middle)
    (resumed : (middle.report error).Resumed last)
    (shorter : r.cursor.here.token ≠ .endOfInput → last.cursor.rest.length < r.cursor.rest.length) :
    r.LeadsTo { last with calls := ⟨r.current, some middle.current, last.current⟩ :: last.calls } := by
  have tokens : last.tokens = middle.tokens := by rw [resumed.same]; rfl
  have calls : last.calls = middle.calls := by rw [resumed.same]; rfl
  have behind : last.Ready := ⟨tokens ▸ resumed.inside, tokens ▸ leads.ready.ended⟩
  refine ⟨⟨behind.inside, behind.ended⟩, tokens.trans leads.tokens, fun recorded => ?_⟩
  have before := leads.recorded recorded
  have advances : Call.Advances last.tokens ⟨r.current, some middle.current, last.current⟩ :=
    advances_of_shorter ready (tokens.trans leads.tokens) shorter
  have resumes : Call.Resumes last.tokens ⟨r.current, some middle.current, last.current⟩ := by
    intro place failed
    cases failed
    rw [tokens]
    exact ⟨middle.cursor.here, leads.ready.here, resumed.atEnd, resumed.least⟩
  refine ⟨fun place member => ?_, List.forall_mem_cons.mpr ⟨advances, tokens ▸ calls ▸ before.advances⟩,
    List.forall_mem_cons.mpr ⟨resumes, tokens ▸ calls ▸ before.resumes⟩,
    fun unfailed => nomatch (List.forall_mem_cons.mp unfailed).1⟩
  change place < last.tokens.length
  rw [tokens]
  exact (resumed.trail place member).elim (before.trail place) id

/-- Each declaration takes a token, also where it is dropped. -/
theorem Follows.recover (follows : Follows q p)
    (takes : ∀ c next a?, c.here.token ≠ .endOfInput → Parse.recover p c = .ok a? next →
      next.rest.length < c.rest.length) : Follows (recover q) (Parse.recover p) := by
  intro r ready
  have same := follows r ready
  generalize came : q r = x at same
  generalize read : p r.cursor = y at same
  cases same with
  | @ok a next leads =>
    have shorter := fun inside => takes r.cursor next.cursor (some a) inside
      (by rw [Parse.recover, read])
    rw [Indexed.recover, Parse.recover, came, read]
    exact .ok_of (recorded_read ready leads shorter) rfl
  | @failed error middle leads =>
    obtain ⟨last, back, resumed⟩ := synchronize_eq (r := middle.report error)
      ⟨leads.ready.inside, leads.ready.ended⟩
    have shorter := fun inside => takes r.cursor last.cursor none inside
      (by rw [Parse.recover, read, resumed.cursor]; rfl)
    rw [Indexed.recover, Parse.recover, came, read]
    simp only
    rw [bind_of_ok back]
    exact .ok_of (recorded_failure ready leads resumed shorter) resumed.cursor
  | starved =>
    rw [Indexed.recover, Parse.recover, came, read]
    exact .starved

/-! ### Expressions -/

structure ExprsFollow (n : Nat) : Prop where
  exprAt : ∀ level, Follows (exprAt n level) (Lox.exprAt n level)
  operationsOn : ∀ level left, Follows (operationsOn n level left) (Lox.operationsOn n level left)
  suffixesOf : ∀ object, Follows (suffixesOf n object) (Lox.suffixesOf n object)
  items : ∀ closing, Follows (items n closing) (Lox.items n closing)
  moreItems : ∀ closing, Follows (moreItems n closing) (Lox.moreItems n closing)
  primary : Follows (primary n) (Lox.primary n)

variable {n : Nat}

theorem items_follows (ih : ExprsFollow n) (closing : Token) :
    Follows (items (n + 1) closing) (Lox.items (n + 1) closing) := by
  refine (follows_accept _).bind fun taken => ?_
  split
  · exact follows_pure _
  · exact (ih.exprAt _).bind fun _ => (ih.moreItems _).bind fun _ => follows_pure _

theorem moreItems_follows (ih : ExprsFollow n) (closing : Token) :
    Follows (moreItems (n + 1) closing) (Lox.moreItems (n + 1) closing) := by
  refine (follows_accept _).bind fun taken => ?_
  split
  · exact (ih.exprAt _).bind fun _ => (ih.moreItems _).bind fun _ => follows_pure _
  · exact (follows_expect _).bind fun _ => follows_pure _

theorem operationsOn_follows (ih : ExprsFollow n) (level : Level) (left : Expr) :
    Follows (operationsOn (n + 1) level left) (Lox.operationsOn (n + 1) level left) := by
  refine follows_peek.bind fun token => ?_
  cases level.operator? token with
  | some op => exact follows_advance.bind fun _ => (ih.exprAt _).bind fun _ => ih.operationsOn _ _
  | none => exact follows_pure _

theorem suffixesOf_follows (ih : ExprsFollow n) (object : Expr) :
    Follows (suffixesOf (n + 1) object) (Lox.suffixesOf (n + 1) object) := by
  refine follows_peek.bind fun token => ?_
  cases token with
  | mark m =>
    cases m with
    | leftParen => exact follows_advance.bind fun _ => (ih.items _).bind fun _ => ih.suffixesOf _
    | dot => exact follows_advance.bind fun _ => follows_identifier.bind fun _ => ih.suffixesOf _
    | leftSquare =>
      exact follows_advance.bind fun _ => (ih.exprAt _).bind fun _ => (follows_expect _).bind fun _ =>
        ih.suffixesOf _
    | _ => exact follows_pure _
  | _ => exact follows_pure _

/-- A reader by number that has taken a token does what one over a cursor does in front of that token. -/
def FollowsBehind (l : Located) (q : Read α) (p : Parse α) : Prop :=
  ∀ r next : Reader, r.Ready → r.cursor.here = l → r.Took next → Matches r (q next) (p r.cursor)

theorem FollowsBehind.of_take {l : Located} {f : Located → Parse α} (follows : Follows q (f l)) :
    FollowsBehind l q (take >>= f) := by
  rintro r next ready rfl took
  have same := follows next took.leads.ready
  rw [took.cursor] at same
  exact same.after took.leads

theorem Follows.of_taken {g : Located → Read α} {f : Token → Parse α}
    (each : ∀ l, FollowsBehind l (g l) (f l.token)) : Follows (advance >>= g) (Parse.peek >>= f) := by
  intro r ready
  obtain ⟨next, taken, took⟩ := advance_eq ready
  rw [bind_of_ok taken]
  exact each _ r next ready rfl took

theorem behind_unread (l : Located) (error : StaticError) :
    FollowsBehind l (do
      if l.token ≠ .endOfInput then stepBack
      failAt l error : Read α) (Parse.fail error) := by
  rintro r next ready rfl took
  by_cases atEnd : r.cursor.here.token = .endOfInput
  · obtain rfl := took.stays atEnd
    rw [if_neg (not_not_intro atEnd)]
    exact .failed ready.leadsTo_self
  · obtain rfl := took.moves atEnd
    have back : stepBack (r.goTo (r.current + 1)) = .ok () ((r.goTo (r.current + 1)).goTo r.current) := rfl
    rw [if_pos atEnd, bind_of_ok back]
    exact .failed (took.leads.trans (took.leads.ready.goTo ready.inside))

theorem primary_follows (ih : ExprsFollow n) : Follows (primary (n + 1)) (Lox.primary (n + 1)) := by
  refine .of_taken fun ⟨token, line⟩ => ?_
  cases Literal.ofToken? token with
  | some value => exact .of_take (follows_pure _)
  | none =>
    cases token with
    | identifier name =>
      refine .of_take ?_
      exact follows_fresh.bind fun _ => follows_pure _
    | keyword k =>
      cases k with
      | thisWord =>
        refine .of_take ?_
        exact follows_fresh.bind fun _ => follows_pure _
      | superWord =>
        refine .of_take ?_
        exact (follows_expect _).bind fun _ => follows_identifier.bind fun _ => follows_fresh.bind fun _ =>
          follows_pure _
      | _ => exact behind_unread _ _
    | mark m =>
      cases m with
      | leftParen =>
        refine .of_take ?_
        exact (ih.exprAt _).bind fun _ => (follows_expect _).bind fun _ => follows_pure _
      | leftSquare =>
        refine .of_take ?_
        exact (ih.items _).bind fun _ => follows_pure _
      | _ => exact behind_unread _ _
    | _ => exact behind_unread _ _

theorem assignment_follows (ih : ExprsFollow n) :
    Follows (exprAt (n + 1) .assignment) (Lox.exprAt (n + 1) .assignment) := by
  refine (ih.exprAt _).bind fun target => follows_peek.bind fun token => ?_
  split
  · refine follows_advance.bind fun _ => (ih.exprAt _).bind fun value => ?_
    cases target.assigned? value with
    | some assignment => exact follows_pure _
    | none => exact (follows_report _ .invalidAssignmentTarget trivial).bind fun _ => follows_pure _
  · exact follows_pure _

theorem conditional_follows (ih : ExprsFollow n) :
    Follows (exprAt (n + 1) .conditional) (Lox.exprAt (n + 1) .conditional) := by
  refine (ih.exprAt _).bind fun test => (follows_accept _).bind fun taken => ?_
  split
  · exact (ih.exprAt _).bind fun _ => (follows_expect _).bind fun _ => (ih.exprAt _).bind fun _ =>
      follows_pure _
  · exact follows_pure _

theorem unary_follows (ih : ExprsFollow n) :
    Follows (exprAt (n + 1) .unary) (Lox.exprAt (n + 1) .unary) := by
  refine follows_peek.bind fun token => ?_
  cases UnaryOp.ofToken? token with
  | some op => exact follows_advance.bind fun _ => (ih.exprAt _).bind fun _ => follows_pure _
  | none => exact ih.exprAt _

theorem exprs_follow (n : Nat) : ExprsFollow n := by
  induction n with
  | zero =>
    exact ⟨fun _ => follows_starve, fun _ _ => follows_starve, fun _ => follows_starve,
      fun _ => follows_starve, fun _ => follows_starve, follows_starve⟩
  | succ n ih =>
    refine ⟨fun level => ?_, operationsOn_follows ih, suffixesOf_follows ih, items_follows ih,
      moreItems_follows ih, primary_follows ih⟩
    cases level with
    | assignment => exact assignment_follows ih
    | conditional => exact conditional_follows ih
    | unary => exact unary_follows ih
    | suffix => exact (ih.exprAt _).bind fun _ => ih.suffixesOf _
    | primary => exact ih.primary
    | _ => exact (ih.exprAt _).bind fun _ => ih.operationsOn _ _

/-! ### Statements -/

theorem moreParams_follows (n : Nat) : Follows (moreParams n) (Lox.moreParams n) := by
  induction n with
  | zero => exact follows_starve
  | succ n ih =>
    refine (follows_accept _).bind fun taken => ?_
    split
    · exact follows_identifier.bind fun _ => ih.bind fun _ => follows_pure _
    · exact (follows_expect _).bind fun _ => follows_pure _

theorem params_follows (n : Nat) : Follows (params n) (Lox.params n) := by
  refine (follows_expect _).bind fun _ => (follows_accept _).bind fun taken => ?_
  split
  · exact follows_pure _
  · exact follows_identifier.bind fun _ => (moreParams_follows n).bind fun _ => follows_pure _

theorem superclass_follows : Follows superclass Lox.superclass := by
  refine (follows_acceptEither _ _).bind fun taken => ?_
  split
  · exact follows_identifier.bind fun _ => follows_fresh.bind fun _ => follows_pure _
  · exact follows_pure _

theorem takeJump_follows {depth : Read Nat} {depth' : Parse Nat} (reads : Follows depth depth')
    (error : StaticError) (mild : error.Mild) :
    Follows (takeJump depth error) (Lox.takeJump depth' error) := by
  refine follows_advance.bind fun l => reads.bind fun found => ?_
  split
  · exact (follows_report _ _ mild).bind fun _ => follows_pure _
  · exact follows_pure _

theorem atBlockEnd_follows : Follows atBlockEnd Lox.atBlockEnd :=
  follows_peek.bind fun _ => follows_pure _

theorem varDecl_follows (n : Nat) : Follows (varDecl n) (Lox.varDecl n) := by
  refine follows_identifier.bind fun found => (follows_accept _).bind fun taken => ?_
  split
  · exact ((exprs_follow n).exprAt _).bind fun _ => (follows_expect _).bind fun _ => follows_pure _
  · exact (follows_expect _).bind fun _ => follows_pure _

theorem optionalExpr_follows (n : Nat) (closing : Token) :
    Follows (optionalExpr n closing) (Lox.optionalExpr n closing) := by
  refine (follows_accept _).bind fun taken => ?_
  split
  · exact follows_pure _
  · exact ((exprs_follow n).exprAt _).bind fun _ => (follows_expect _).bind fun _ => follows_pure _

theorem parenExpr_follows (n : Nat) : Follows (parenExpr n) (Lox.parenExpr n) :=
  (follows_expect _).bind fun _ => ((exprs_follow n).exprAt _).bind fun _ =>
    (follows_expect _).bind fun _ => follows_pure _

theorem exprStmt_follows (n : Nat) : Follows (exprStmt n) (Lox.exprStmt n) :=
  ((exprs_follow n).exprAt _).bind fun _ => (follows_expect _).bind fun _ => follows_pure _

theorem forInitial_follows (n : Nat) : Follows (forInitial n) (Lox.forInitial n) := by
  refine (follows_accept _).bind fun taken => ?_
  split
  · exact follows_pure _
  refine (follows_accept _).bind fun taken => ?_
  split
  · exact (varDecl_follows n).bind fun _ => follows_pure _
  · exact (exprStmt_follows n).bind fun _ => follows_pure _

structure StmtsFollow (n : Nat) : Prop where
  declaration : Follows (declaration n) (Lox.declaration n)
  statement : Follows (statement n) (Lox.statement n)
  declarations : Follows (declarations n) (Lox.declarations n)
  function : Follows (function n) (Lox.function n)
  methods : Follows (methods n) (Lox.methods n)

theorem declaration_follows (ih : StmtsFollow n) :
    Follows (declaration (n + 1)) (Lox.declaration (n + 1)) := by
  refine Follows.recover (follows_peek.bind fun token => ?_) fun _ _ _ inside read =>
    declaration_takes (n := n + 1) inside read
  cases token with
  | keyword k =>
    cases k with
    | classWord =>
      exact follows_advance.bind fun _ => follows_identifier.bind fun _ => superclass_follows.bind fun _ =>
        ih.methods.braced.bind fun _ => follows_pure _
    | funWord => exact follows_advance.bind fun _ => ih.function.bind fun _ => follows_pure _
    | varWord => exact follows_advance.bind fun _ => varDecl_follows n
    | _ => exact ih.statement
  | _ => exact ih.statement

theorem statement_follows (ih : StmtsFollow n) : Follows (statement (n + 1)) (Lox.statement (n + 1)) := by
  have exprs := exprs_follow n
  have loop := ih.statement.inLoop (stmts_move n).statement
  refine follows_peek.bind fun token => ?_
  cases token with
  | keyword k =>
    cases k with
    | printWord =>
      exact follows_advance.bind fun _ => (exprs.exprAt _).bind fun _ => (exprs.moreItems _).bind fun _ =>
        follows_pure _
    | ifWord =>
      refine follows_advance.bind fun _ => (parenExpr_follows n).bind fun _ => ih.statement.bind fun _ =>
        (follows_accept _).bind fun taken => ?_
      split
      · exact ih.statement.bind fun _ => follows_pure _
      · exact follows_pure _
    | whileWord =>
      exact follows_advance.bind fun _ => (parenExpr_follows n).bind fun _ => loop.bind fun _ => follows_pure _
    | forWord =>
      exact follows_advance.bind fun _ => (follows_expect _).bind fun _ => (forInitial_follows n).bind fun _ =>
        (optionalExpr_follows n _).bind fun _ => (optionalExpr_follows n _).bind fun _ =>
        loop.bind fun _ => follows_pure _
    | breakWord =>
      exact (takeJump_follows follows_loopDepth .breakOutsideLoop trivial).bind fun _ =>
        (follows_expect _).bind fun _ => follows_pure _
    | continueWord =>
      exact (takeJump_follows follows_loopDepth .continueOutsideLoop trivial).bind fun _ =>
        (follows_expect _).bind fun _ => follows_pure _
    | returnWord =>
      exact (takeJump_follows follows_functionDepth .returnOutsideFunction trivial).bind fun _ =>
        (optionalExpr_follows n _).bind fun _ => follows_pure _
    | _ => exact exprStmt_follows n
  | mark m =>
    cases m with
    | leftCurly => exact ih.declarations.braced.bind fun _ => follows_pure _
    | _ => exact exprStmt_follows n
  | _ => exact exprStmt_follows n

theorem declarations_follows (ih : StmtsFollow n) :
    Follows (declarations (n + 1)) (Lox.declarations (n + 1)) := by
  refine atBlockEnd_follows.bind fun ends => ?_
  split
  · exact follows_pure _
  · exact ih.declaration.bind fun _ => ih.declarations.bind fun _ => follows_pure _

theorem function_follows (ih : StmtsFollow n) : Follows (function (n + 1)) (Lox.function (n + 1)) :=
  follows_identifier.bind fun _ => (params_follows n).bind fun _ =>
    (ih.declarations.braced.inFunction (stmts_move n).declarations.braced).bind fun _ => follows_pure _

theorem methods_follows (ih : StmtsFollow n) : Follows (methods (n + 1)) (Lox.methods (n + 1)) := by
  refine atBlockEnd_follows.bind fun ends => ?_
  split
  · exact follows_pure _
  · exact ih.function.bind fun _ => ih.methods.bind fun _ => follows_pure _

theorem stmts_follow (n : Nat) : StmtsFollow n := by
  induction n with
  | zero => exact ⟨follows_starve, follows_starve, follows_starve, follows_starve, follows_starve⟩
  | succ n ih =>
    exact ⟨declaration_follows ih, statement_follows ih, declarations_follows ih, function_follows ih,
      methods_follows ih⟩

theorem program_follows (n : Nat) : Follows (program n) (Lox.program n) := by
  induction n with
  | zero => exact follows_starve
  | succ n ih =>
    refine follows_peek.bind fun token => ?_
    split
    · exact follows_pure _
    · exact (stmts_follow n).declaration.bind fun _ => ih.bind fun _ => follows_pure _

/-! ### Whole programs -/

theorem closed_getLast (tokens : List Located) :
    ∃ stop, (closed tokens).getLast? = some stop ∧ stop.token = .endOfInput := by
  unfold closed
  split
  · exact ⟨_, rfl, rfl⟩
  · next last same =>
    split
    · next atEnd => exact ⟨last, same, atEnd⟩
    · exact ⟨_, List.getLast?_concat, rfl⟩

theorem start_ready (nextId : Nat) (tokens : List Located) : (Reader.start nextId tokens).Ready := by
  obtain ⟨stop, last, ends⟩ := closed_getLast tokens
  exact ⟨List.length_pos_of_mem (List.mem_of_getLast? last), stop, last, ends⟩

theorem start_recorded (nextId : Nat) (tokens : List Located) : (Reader.start nextId tokens).Recorded := by
  refine ⟨fun place member => ?_, List.forall_mem_nil _, List.forall_mem_nil _, fun _ => List.forall_mem_nil _⟩
  rw [List.mem_singleton.mp member]
  exact (start_ready nextId tokens).inside

/-- A program is read by number as it is read over a cursor, and the record of that is in order. -/
theorem run_recorded (nextId : Nat) (tokens : List Located) :
    ∃ statements last, run nextId tokens = .ok statements last ∧
      Lox.program (depthFor tokens) (.start nextId tokens) = .ok statements last.cursor ∧
      last.tokens = closed tokens ∧ last.Recorded := by
  obtain ⟨statements, stop, read⟩ := program_reads nextId tokens
  have same := program_follows (depthFor tokens) (.start nextId tokens) (start_ready nextId tokens)
  change Matches _ (run nextId tokens) (Lox.program (depthFor tokens) (.start nextId tokens)) at same
  rw [read] at same ⊢
  generalize run nextId tokens = x at same
  cases same with
  | ok leads =>
    exact ⟨statements, _, rfl, rfl, leads.tokens, leads.recorded (start_recorded nextId tokens)⟩

theorem parse_of_read {nextId : Nat} {tokens : List Located} {statements : List Stmt} {last : Reader}
    (read : Lox.program (depthFor tokens) (.start nextId tokens) = .ok statements last.cursor) :
    parse nextId tokens = ⟨statements, last.diagnostics, last.nextId⟩ := by
  rw [parse, read]
  rfl

end Indexed

/-- Whatever the tokens are, a program is read to an end. No token is looked up where there is none and no
count goes below zero: all places on the way are within the tokens, and each declaration that is asked for in
front of another token than the end takes at least one, whether it is kept or dropped. -/
theorem parse_stays_inside (nextId : Nat) (tokens : List Located) :
    ∃ statements last, Indexed.run nextId tokens = .ok statements last ∧
      parse nextId tokens = ⟨statements, last.diagnostics, last.nextId⟩ ∧
      (∀ place ∈ last.trail, place < (closed tokens).length) ∧
      ∀ call ∈ last.calls, ∀ l, (closed tokens)[call.start]? = some l → l.token ≠ .endOfInput →
        call.start < call.stop := by
  obtain ⟨statements, last, read, same, here, recorded⟩ := Indexed.run_recorded nextId tokens
  exact ⟨statements, last, read, Indexed.parse_of_read same, here ▸ recorded.trail, here ▸ recorded.advances⟩

end Lox
