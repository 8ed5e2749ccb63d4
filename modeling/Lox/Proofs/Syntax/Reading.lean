import Lox.Syntax.Program

/-!
What the readers of phrases do to the cursor. Each primitive has a lemma for what it gives, `Onward`
says how a cursor moves, and every reader moves it so, whether it succeeds or fails: tokens are passed
from the front and the end of the input is not, ids are handed out in ascending order, the nesting is
restored, and no diagnostic is taken back.
-/

namespace Lox

variable {α β : Type} {c next last : Cursor}

namespace Parse

/-! ### What primitives give -/

theorem bind_eq_starved {p : Parse α} {f : α → Parse β} :
    (p >>= f) c = .starved ↔
      p c = .starved ∨ ∃ a next, p c = .ok a next ∧ f a next = .starved := by
  show Parse.bind p f c = _ ↔ _
  unfold Parse.bind
  cases p c with
  | ok a next => simp [and_assoc]
  | failed error next => simp
  | starved => simp

theorem pure_eq_ok {a b : α} : (pure a : Parse α) c = .ok b next ↔ b = a ∧ next = c := by
  show Reply.ok a c = .ok b next ↔ _
  simp only [Reply.ok.injEq, eq_comm]

theorem peek_eq_ok {token : Token} : peek c = .ok token next ↔ token = c.here.token ∧ next = c := by
  simp only [peek, Reply.ok.injEq, eq_comm]

theorem take_eq_ok {spot : Located} : take c = .ok spot next ↔ spot = c.here ∧ next = c.advance := by
  simp only [take, Reply.ok.injEq, eq_comm]

theorem accept_eq_ok {token : Token} {taken : Bool} :
    accept token c = .ok taken next ↔
      (c.here.token = token ∧ taken = true ∧ next = c.advance) ∨
      (c.here.token ≠ token ∧ taken = false ∧ next = c) := by
  unfold accept
  split <;> simp_all [eq_comm]

theorem acceptEither_eq_ok {first second : Token} {taken : Bool} :
    acceptEither first second c = .ok taken next ↔
      ((c.here.token = first ∨ c.here.token = second) ∧ taken = true ∧ next = c.advance) ∨
      (¬ (c.here.token = first ∨ c.here.token = second) ∧ taken = false ∧ next = c) := by
  unfold acceptEither
  split <;> simp_all [eq_comm]

theorem expect_eq_ok {token : Token} {u : Unit} :
    expect token c = .ok u next ↔ c.here.token = token ∧ next = c.advance := by
  unfold expect
  split <;> simp_all [eq_comm]

theorem identifier_eq_ok {found : String × Nat} :
    identifier c = .ok found next ↔
      c.here.token = .identifier found.1 ∧ found.2 = c.here.line ∧ next = c.advance := by
  unfold identifier
  obtain ⟨name, line⟩ := found
  split
  · next other same => simp [same, and_assoc, eq_comm]
  · next other => simpa using fun same => absurd same (other name)

theorem report_eq_ok {spot : Located} {error : StaticError} {u : Unit} :
    report spot error c = .ok u next ↔ next = c.report (.at spot error) := by
  simp only [report, Reply.ok.injEq, eq_comm, true_and]

theorem inLoop_eq_ok {p : Parse α} {a : α} :
    inLoop p c = .ok a next ↔
      ∃ inner, p { c with loops := c.loops + 1 } = .ok a inner ∧
        next = { inner with loops := c.loops, functions := c.functions } := by
  unfold inLoop
  cases p { c with loops := c.loops + 1 } <;> simp [Reply.nest, eq_comm, and_assoc]

theorem inFunction_eq_ok {p : Parse α} {a : α} :
    inFunction p c = .ok a next ↔
      ∃ inner, p { c with loops := 0, functions := c.functions + 1 } = .ok a inner ∧
        next = { inner with loops := c.loops, functions := c.functions } := by
  unfold inFunction
  cases p { c with loops := 0, functions := c.functions + 1 } <;> simp [Reply.nest, eq_comm, and_assoc]

theorem recover_eq_ok {p : Parse α} {a? : Option α} :
    recover p c = .ok a? next ↔
      (∃ a, p c = .ok a next ∧ a? = some a) ∨
      (∃ error middle, p c = .failed error middle ∧ a? = none ∧
        next = (middle.report error).synchronize) := by
  unfold recover
  cases p c with
  | ok a middle => simp [eq_comm, and_assoc, and_comm]
  | failed error middle => simp [eq_comm, and_assoc]
  | starved => simp

theorem atBlockEnd_eq_ok {ends : Bool} :
    atBlockEnd c = .ok ends next ↔
      ends = decide (c.here.token = .mark .rightCurly ∨ c.here.token = .endOfInput) ∧ next = c := by
  show Reply.ok _ c = .ok ends next ↔ _
  simp [eq_comm]

end Parse

/-- Errors that are reported while reading goes on. -/
def StaticError.Mild : StaticError → Prop
  | .invalidAssignmentTarget | .breakOutsideLoop | .continueOutsideLoop | .returnOutsideFunction => True
  | _ => False

/-- Where a reader succeeds at a cursor, what it gives is as stated. -/
def Parse.Gives (p : Parse α) (c : Cursor) (Q : α → Cursor → Prop) : Prop :=
  ∀ a next, p c = .ok a next → Q a next

namespace Parse

variable {P : α → Cursor → Prop} {Q : β → Cursor → Prop}

theorem Gives.imp {p : Parse α} {R : α → Cursor → Prop} (gives : p.Gives c P)
    (entails : ∀ a next, p c = .ok a next → P a next → R a next) : p.Gives c R :=
  fun a next read => entails a next read (gives a next read)

theorem Gives.bind {p : Parse α} {f : α → Parse β} (first : p.Gives c P)
    (second : ∀ a next, p c = .ok a next → P a next → (f a).Gives next Q) : (p >>= f).Gives c Q := by
  intro b last h
  obtain ⟨a, next, read, h⟩ := bind_eq_ok.mp h
  exact second a next read (first a next read) b last h

theorem starve_gives : (starve : Parse α).Gives c P :=
  fun _ _ h => nomatch h

theorem fail_gives {error : StaticError} : (fail error : Parse α).Gives c P :=
  fun _ _ h => nomatch h

theorem pure_gives {a : α} (given : P a c) : (pure a : Parse α).Gives c P := by
  intro b next h
  obtain ⟨rfl, rfl⟩ := pure_eq_ok.mp h
  exact given

theorem peek_bind_gives {f : Token → Parse β} (second : (f c.here.token).Gives c Q) :
    (peek >>= f).Gives c Q := second

theorem take_bind_gives {f : Located → Parse β} (second : (f c.here).Gives c.advance Q) :
    (take >>= f).Gives c Q := second

theorem fresh_bind_gives {f : Nat → Parse β}
    (second : (f c.nextId).Gives { c with nextId := c.nextId + 1 } Q) : (fresh >>= f).Gives c Q := second

theorem report_bind_gives {spot : Located} {error : StaticError} {f : Unit → Parse β}
    (second : (f ()).Gives (c.report (.at spot error)) Q) : (report spot error >>= f).Gives c Q := second

theorem accept_bind_gives {token : Token} {f : Bool → Parse β}
    (taken : c.here.token = token → (f true).Gives c.advance Q)
    (left : c.here.token ≠ token → (f false).Gives c Q) : (accept token >>= f).Gives c Q := by
  intro b last h
  obtain ⟨_, next, read, behind⟩ := bind_eq_ok.mp h
  rcases accept_eq_ok.mp read with ⟨same, rfl, rfl⟩ | ⟨other, rfl, rfl⟩
  · exact taken same b last behind
  · exact left other b last behind

theorem acceptEither_bind_gives {first second : Token} {f : Bool → Parse β}
    (taken : c.here.token = first ∨ c.here.token = second → (f true).Gives c.advance Q)
    (left : (f false).Gives c Q) : (acceptEither first second >>= f).Gives c Q := by
  intro b last h
  obtain ⟨_, next, read, behind⟩ := bind_eq_ok.mp h
  rcases acceptEither_eq_ok.mp read with ⟨same, rfl, rfl⟩ | ⟨_, rfl, rfl⟩
  · exact taken same b last behind
  · exact left b last behind

theorem expect_bind_gives {token : Token} {f : Unit → Parse β}
    (second : c.here.token = token → (f ()).Gives c.advance Q) : (expect token >>= f).Gives c Q := by
  intro b last h
  obtain ⟨_, next, read, behind⟩ := bind_eq_ok.mp h
  obtain ⟨same, rfl⟩ := expect_eq_ok.mp read
  exact second same b last behind

theorem identifier_bind_gives {f : String × Nat → Parse β}
    (second : ∀ name, c.here.token = .identifier name → (f (name, c.here.line)).Gives c.advance Q) :
    (identifier >>= f).Gives c Q := by
  intro b last h
  obtain ⟨⟨name, _⟩, next, read, behind⟩ := bind_eq_ok.mp h
  obtain ⟨same, rfl, rfl⟩ := identifier_eq_ok.mp read
  exact second name same b last behind

theorem atBlockEnd_bind_gives {f : Bool → Parse β}
    (ends : c.here.token = .mark .rightCurly ∨ c.here.token = .endOfInput → (f true).Gives c Q)
    (goes : ¬ (c.here.token = .mark .rightCurly ∨ c.here.token = .endOfInput) → (f false).Gives c Q) :
    (atBlockEnd >>= f).Gives c Q := by
  intro b last h
  obtain ⟨_, next, read, behind⟩ := bind_eq_ok.mp h
  obtain ⟨rfl, rfl⟩ := atBlockEnd_eq_ok.mp read
  by_cases same : next.here.token = .mark .rightCurly ∨ next.here.token = .endOfInput
  · simp only [same, decide_true] at behind
    exact ends same b last behind
  · simp only [same, decide_false] at behind
    exact goes same b last behind

theorem Gives.inLoop {p : Parse α}
    (body : p.Gives { c with loops := c.loops + 1 } fun a inner =>
      P a { inner with loops := c.loops, functions := c.functions }) : (inLoop p).Gives c P := by
  intro a next h
  obtain ⟨inner, read, rfl⟩ := inLoop_eq_ok.mp h
  exact body a inner read

theorem Gives.inFunction {p : Parse α}
    (body : p.Gives { c with loops := 0, functions := c.functions + 1 } fun a inner =>
      P a { inner with loops := c.loops, functions := c.functions }) : (inFunction p).Gives c P := by
  intro a next h
  obtain ⟨inner, read, rfl⟩ := inFunction_eq_ok.mp h
  exact body a inner read

theorem Gives.braced {p : Parse α}
    (body : c.here.token = .mark .leftCurly → p.Gives c.advance fun a next =>
      next.here.token = .mark .rightCurly → P a next.advance) : (braced p).Gives c P :=
  expect_bind_gives fun opened => (body opened).bind fun _ _ _ behind =>
    expect_bind_gives fun closed => pure_gives (behind closed)

end Parse

/-! ### How a cursor moves -/

/-- A cursor behind another one of the same program, at the same depth of nesting. -/
structure Cursor.Onward (c next : Cursor) : Prop where
  passed : ∃ ls, c.rest = ls ++ next.rest ∧ ∀ l ∈ ls, l.token ≠ .endOfInput
  nextId : c.nextId ≤ next.nextId
  loops : next.loops = c.loops
  functions : next.functions = c.functions
  diagnostics : c.diagnostics <+: next.diagnostics

namespace Cursor

theorem Onward.refl (c : Cursor) : c.Onward c :=
  ⟨⟨[], by simp⟩, Nat.le_refl _, rfl, rfl, List.prefix_refl _⟩

theorem Onward.trans (first : c.Onward next) (second : next.Onward last) : c.Onward last := by
  obtain ⟨ls, split₁, open₁⟩ := first.passed
  obtain ⟨ms, split₂, open₂⟩ := second.passed
  refine ⟨⟨ls ++ ms, by rw [split₁, split₂, List.append_assoc], ?_⟩,
    Nat.le_trans first.nextId second.nextId, second.loops.trans first.loops,
    second.functions.trans first.functions, first.diagnostics.trans second.diagnostics⟩
  intro l member
  exact (List.mem_append.mp member).elim (open₁ l) (open₂ l)

theorem Onward.length_le (onward : c.Onward next) : next.rest.length ≤ c.rest.length := by
  obtain ⟨ls, same, _⟩ := onward.passed
  rw [same, List.length_append]
  omega

theorem Onward.clean (onward : c.Onward next) (clean : next.diagnostics = []) : c.diagnostics = [] :=
  List.prefix_nil.mp (clean ▸ onward.diagnostics)

theorem rest_eq_cons (inside : c.here.token ≠ .endOfInput) : c.rest = c.here :: c.rest.tail := by
  cases same : c.rest with
  | nil => simp [here, same] at inside
  | cons l ls => simp [here, same]

theorem advance_rest (inside : c.here.token ≠ .endOfInput) : c.advance.rest = c.rest.tail := by
  simp [advance, inside]

theorem onward_advance (c : Cursor) : c.Onward c.advance := by
  by_cases atEnd : c.here.token = .endOfInput
  · rw [advance_of_end atEnd]
    exact Onward.refl c
  · refine ⟨⟨[c.here], ?_, by simpa using atEnd⟩, ?_, ?_, ?_, ?_⟩
    · rw [advance_rest atEnd]
      exact rest_eq_cons atEnd
    all_goals simp [advance, atEnd]

theorem advance_length (inside : c.here.token ≠ .endOfInput) :
    c.rest.length = c.advance.rest.length + 1 := by
  rw [advance_rest inside]
  exact congrArg List.length (rest_eq_cons inside)

theorem onward_report (c : Cursor) (d : Diagnostic) : c.Onward (c.report d) :=
  ⟨⟨[], by simp [report]⟩, Nat.le_refl _, rfl, rfl, List.prefix_append _ _⟩

theorem onward_fresh (c : Cursor) : c.Onward { c with nextId := c.nextId + 1 } :=
  ⟨⟨[], by simp⟩, Nat.le_succ _, rfl, rfl, List.prefix_refl _⟩

end Cursor

theorem nextStatement_split (last : Token) (ts : List Located) :
    ∃ ls, ts = ls ++ nextStatement last ts ∧ ∀ l ∈ ls, l.token ≠ .endOfInput := by
  induction ts generalizing last with
  | nil => exact ⟨[], by simp [nextStatement]⟩
  | cons t rest ih =>
    unfold nextStatement
    split
    · exact ⟨[], by simp⟩
    · next going =>
      obtain ⟨ls, same, inside⟩ := ih t.token
      refine ⟨t :: ls, by rw [List.cons_append, ← same], ?_⟩
      simp only [Bool.or_eq_true, decide_eq_true_eq, not_or] at going
      intro l member
      rcases List.mem_cons.mp member with rfl | later
      · exact going.1.1
      · exact inside l later

theorem Cursor.onward_synchronize (c : Cursor) : c.Onward c.synchronize := by
  refine c.onward_advance.trans ?_
  obtain ⟨ls, same, inside⟩ := nextStatement_split c.here.token c.advance.rest
  exact ⟨⟨ls, same, inside⟩, Nat.le_refl _, rfl, rfl, List.prefix_refl _⟩

/-- A reader moves the cursor onward, also where it fails. -/
structure Parse.Moves (p : Parse α) : Prop where
  ok : ∀ {c a next}, p c = .ok a next → c.Onward next
  failed : ∀ {c error next}, p c = .failed error next → c.Onward next

/-- A reader takes at least one token where it succeeds. -/
def Parse.Takes (p : Parse α) : Prop :=
  ∀ c a next, p c = .ok a next → next.rest.length < c.rest.length

namespace Parse

theorem Moves.bind {p : Parse α} {f : α → Parse β} (first : p.Moves) (second : ∀ a, (f a).Moves) :
    (p >>= f).Moves where
  ok h := by
    obtain ⟨a, next, hp, hf⟩ := bind_eq_ok.mp h
    exact (first.ok hp).trans ((second a).ok hf)
  failed h := by
    rcases bind_eq_failed.mp h with hp | ⟨a, next, hp, hf⟩
    · exact first.failed hp
    · exact (first.ok hp).trans ((second a).failed hf)

theorem Takes.bind {p : Parse α} {f : α → Parse β} (first : p.Takes) (second : ∀ a, (f a).Moves) :
    (p >>= f).Takes := by
  intro c b last h
  obtain ⟨a, next, hp, hf⟩ := bind_eq_ok.mp h
  exact Nat.lt_of_le_of_lt ((second a).ok hf).length_le (first _ _ _ hp)

theorem moves_of_ok {p : Parse α} {f : Cursor → α} {g : Cursor → Cursor}
    (same : ∀ c, p c = .ok (f c) (g c)) (onward : ∀ c : Cursor, c.Onward (g c)) : p.Moves where
  ok {c _ _} h := by
    rw [same c, Reply.ok.injEq] at h
    exact h.2 ▸ onward c
  failed {c _ _} h := by simp [same c] at h

theorem moves_pure (a : α) : (pure a : Parse α).Moves :=
  moves_of_ok (fun _ => rfl) Cursor.Onward.refl

theorem moves_peek : peek.Moves :=
  moves_of_ok (fun _ => rfl) Cursor.Onward.refl

theorem moves_take : take.Moves :=
  moves_of_ok (fun _ => rfl) Cursor.onward_advance

theorem moves_fresh : fresh.Moves :=
  moves_of_ok (fun _ => rfl) Cursor.onward_fresh

theorem moves_report (spot : Located) (error : StaticError) : (report spot error).Moves :=
  moves_of_ok (fun _ => rfl) fun c => c.onward_report _

theorem moves_loopDepth : loopDepth.Moves :=
  moves_of_ok (fun _ => rfl) Cursor.Onward.refl

theorem moves_functionDepth : functionDepth.Moves :=
  moves_of_ok (fun _ => rfl) Cursor.Onward.refl

theorem moves_starve : (starve : Parse α).Moves where
  ok h := by simp [starve] at h
  failed h := by simp [starve] at h

theorem moves_fail (error : StaticError) : (fail error : Parse α).Moves where
  ok h := by simp [fail] at h
  failed h := by
    simp only [fail, Reply.failed.injEq] at h
    exact h.2 ▸ Cursor.Onward.refl _

theorem moves_accept (token : Token) : (accept token).Moves where
  ok h := by
    rcases accept_eq_ok.mp h with ⟨_, _, rfl⟩ | ⟨_, _, rfl⟩
    · exact Cursor.onward_advance _
    · exact Cursor.Onward.refl _
  failed h := by
    unfold accept at h
    split at h <;> simp at h

theorem moves_acceptEither (first second : Token) : (acceptEither first second).Moves where
  ok h := by
    rcases acceptEither_eq_ok.mp h with ⟨_, _, rfl⟩ | ⟨_, _, rfl⟩
    · exact Cursor.onward_advance _
    · exact Cursor.Onward.refl _
  failed h := by
    unfold acceptEither at h
    split at h <;> simp at h

theorem moves_expect (token : Token) : (expect token).Moves where
  ok h := (expect_eq_ok.mp h).2 ▸ Cursor.onward_advance _
  failed h := by
    unfold expect at h
    split at h
    · simp at h
    · simp only [Reply.failed.injEq] at h
      exact h.2 ▸ Cursor.Onward.refl _

theorem moves_identifier : identifier.Moves where
  ok h := (identifier_eq_ok.mp h).2.2 ▸ Cursor.onward_advance _
  failed h := by
    unfold identifier at h
    split at h
    · simp at h
    · simp only [Reply.failed.injEq] at h
      exact h.2 ▸ Cursor.Onward.refl _

theorem takes_expect {token : Token} (inside : token ≠ .endOfInput) : (expect token).Takes := by
  intro c _ next h
  obtain ⟨same, rfl⟩ := expect_eq_ok.mp h
  have := Cursor.advance_length (c := c) (same ▸ inside)
  omega

theorem takes_identifier : identifier.Takes := by
  intro c _ next h
  obtain ⟨same, _, rfl⟩ := identifier_eq_ok.mp h
  have := Cursor.advance_length (c := c) (by simp [same])
  omega

theorem onward_nest {loops functions : Nat}
    (inner : { c with loops := loops, functions := functions }.Onward next) :
    c.Onward { next with loops := c.loops, functions := c.functions } :=
  ⟨inner.passed, inner.nextId, rfl, rfl, inner.diagnostics⟩

theorem Moves.inLoop {p : Parse α} (body : p.Moves) : (inLoop p).Moves where
  ok h := by
    obtain ⟨inner, hp, rfl⟩ := inLoop_eq_ok.mp h
    exact onward_nest (body.ok hp)
  failed {c _ _} h := by
    unfold Parse.inLoop at h
    cases hp : p { c with loops := c.loops + 1 } with
    | failed error inner =>
      simp only [hp, Reply.nest, Reply.failed.injEq] at h
      exact h.2 ▸ onward_nest (body.failed hp)
    | _ => simp [hp, Reply.nest] at h

theorem Moves.inFunction {p : Parse α} (body : p.Moves) : (inFunction p).Moves where
  ok h := by
    obtain ⟨inner, hp, rfl⟩ := inFunction_eq_ok.mp h
    exact onward_nest (body.ok hp)
  failed {c _ _} h := by
    unfold Parse.inFunction at h
    cases hp : p { c with loops := 0, functions := c.functions + 1 } with
    | failed error inner =>
      simp only [hp, Reply.nest, Reply.failed.injEq] at h
      exact h.2 ▸ onward_nest (body.failed hp)
    | _ => simp [hp, Reply.nest] at h

theorem Moves.braced {p : Parse α} (body : p.Moves) : (braced p).Moves :=
  (moves_expect _).bind fun _ => body.bind fun _ => (moves_expect _).bind fun _ => moves_pure _

theorem takes_braced {p : Parse α} (body : p.Moves) : (braced p).Takes :=
  (takes_expect (by simp)).bind fun _ => body.bind fun _ => (moves_expect _).bind fun _ => moves_pure _

theorem Moves.recover {p : Parse α} (body : p.Moves) : (recover p).Moves where
  ok h := by
    rcases recover_eq_ok.mp h with ⟨a, hp, _⟩ | ⟨error, middle, hp, _, rfl⟩
    · exact body.ok hp
    · exact ((body.failed hp).trans (middle.onward_report error)).trans (Cursor.onward_synchronize _)
  failed {c _ _} h := by
    unfold Parse.recover at h
    cases hp : p c <;> simp [hp] at h

theorem Gives.kept {p : Parse α} {P : α → Cursor → Prop} (body : p.Gives c P) :
    (recover p).Gives c fun a? next => ∀ a, a? = some a → P a next := by
  intro a? next h a same
  rcases recover_eq_ok.mp h with ⟨b, read, rfl⟩ | ⟨_, _, _, rfl, _⟩
  · exact Option.some.inj same ▸ body b next read
  · cases same

/-- Where nothing is reported, nothing was dropped. -/
theorem Gives.recover {p : Parse α} {P : α → Cursor → Prop}
    (body : p.Gives c fun a next => next.diagnostics = [] → P a next) :
    (recover p).Gives c fun a? next => next.diagnostics = [] → ∃ a, a? = some a ∧ P a next := by
  intro a? next h clean
  rcases recover_eq_ok.mp h with ⟨a, read, rfl⟩ | ⟨error, middle, _, _, rfl⟩
  · exact ⟨a, rfl, body a next read clean⟩
  · have reported := (Cursor.onward_synchronize _).clean clean
    simp [Cursor.report] at reported

end Parse

end Lox
