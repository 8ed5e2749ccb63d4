import Lox.Proofs.Syntax.Positions

/-!
Where reading goes on behind an error. It goes on at the first place, from the token that the error was found
at, where a statement may start. Of the token itself that is not asked, though: a keyword that could start a
statement is passed with the rest if the error was found at it.
-/

namespace Lox

namespace Indexed

theorem Call.Resumes.found {tokens : List Located} {call : Call} {place : Nat} (resumes : call.Resumes tokens)
    (failed : call.failure? = some place) :
    ∃ l, tokens[place]? = some l ∧
      (l.token.startsStatement = false →
        IsLeast {next | place ≤ next ∧ Boundary tokens place next} call.stop) ∧
      (l.token.startsStatement = true →
        IsLeast {next | place < next ∧ Boundary tokens place next} call.stop) := by
  obtain ⟨l, here, atEnd, inside⟩ := resumes place failed
  refine ⟨l, here, fun plain => ?_, fun starts => inside fun ends => ?_⟩
  · by_cases ends : l.token = .endOfInput
    · rw [atEnd ends]
      exact ⟨⟨Nat.le_refl _, .inl ⟨l, here, .inl ends⟩⟩, fun _ later => later.1⟩
    · obtain ⟨⟨lt, bounds⟩, first⟩ := inside ends
      refine ⟨⟨Nat.le_of_lt lt, bounds⟩, fun next later => first ⟨Nat.lt_of_le_of_ne later.1 ?_, later.2⟩⟩
      -- No statement starts at the place itself.
      rintro rfl
      rcases later.2 with ⟨other, same, stops⟩ | ⟨passed, -⟩
      · rw [here, Option.some.injEq] at same
        subst same
        rcases stops with stops | stops
        · exact ends stops
        · exact Bool.false_ne_true (plain.symm.trans stops)
      · exact Nat.lt_irrefl _ passed
  · rw [ends] at starts
    cases starts

end Indexed

/-- Behind each declaration that fails reading goes on at the first place where a statement may start. The place
of the error is not counted among those if a keyword stands there that starts a statement. -/
theorem recovery_resumes (nextId : Nat) (tokens : List Located) :
    ∃ statements last, Indexed.run nextId tokens = .ok statements last ∧
      parse nextId tokens = ⟨statements, last.diagnostics, last.nextId⟩ ∧
      ∀ call ∈ last.calls, ∀ place, call.failure? = some place →
        ∃ l, (closed tokens)[place]? = some l ∧
          (l.token.startsStatement = false →
            IsLeast {next | place ≤ next ∧ Indexed.Boundary (closed tokens) place next} call.stop) ∧
          (l.token.startsStatement = true →
            IsLeast {next | place < next ∧ Indexed.Boundary (closed tokens) place next} call.stop) := by
  obtain ⟨statements, last, read, same, here, recorded⟩ := Indexed.run_recorded nextId tokens
  refine ⟨statements, last, read, Indexed.parse_of_read same, fun call member place failed => ?_⟩
  rw [← here]
  exact (recorded.resumes call member).found failed

/-- The tokens of `var x = true print nil;`. -/
def unendedDeclaration : List Located :=
  [⟨.keyword .varWord, 1⟩, ⟨.identifier "x", 1⟩, ⟨.mark .equal, 1⟩, ⟨.keyword .trueWord, 1⟩,
    ⟨.keyword .printWord, 1⟩, ⟨.keyword .nilWord, 1⟩, ⟨.mark .semicolon, 1⟩]

theorem recovery_resumes_behind_print :
    IsLeast {next | 4 < next ∧ Indexed.Boundary (closed unendedDeclaration) 4 next} 7 := by
  obtain ⟨statements, last, read, -, resumes⟩ := recovery_resumes 0 unendedDeclaration
  obtain ⟨last', read', member⟩ : ∃ last', Indexed.run 0 unendedDeclaration = .ok [] last' ∧
      (⟨0, some 4, 7⟩ : Indexed.Call) ∈ last'.calls := ⟨_, rfl, List.mem_singleton.mpr rfl⟩
  rw [read'] at read
  cases read
  obtain ⟨l, here, -, starts⟩ := resumes ⟨0, some 4, 7⟩ member 4 rfl
  cases here
  exact starts rfl

/-- The declaration fails at the `print`, where a statement starts, and that statement is lost with it. -/
theorem recovery_passes_print :
    ∃ last, Indexed.run 0 unendedDeclaration = .ok [] last ∧ (parse 0 unendedDeclaration).program = [] ∧
      (closed unendedDeclaration)[4]? = some ⟨.keyword .printWord, 1⟩ ∧
      ∃ call ∈ last.calls, call.failure? = some 4 ∧
        ¬ IsLeast {next | 4 ≤ next ∧ Indexed.Boundary (closed unendedDeclaration) 4 next} call.stop := by
  refine ⟨_, rfl, rfl, rfl, ⟨0, some 4, 7⟩, List.mem_singleton.mpr rfl, rfl, fun least => ?_⟩
  have le : (7 : Nat) ≤ 4 := least.2 ⟨Nat.le_refl 4, .inl ⟨⟨.keyword .printWord, 1⟩, rfl, .inr rfl⟩⟩
  exact absurd le (by decide)

end Lox
