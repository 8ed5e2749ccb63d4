import Lox.Proofs.Lexeme.Splitting
import Lox.Proofs.Syntax.Unpolish
import Lox.Proofs.Scope.Sources
import Lox.Proofs.Session.Points

/-!
What the Polish form of a text tells of it: its statements, but for ids and lines, for whether a clause of a
`for` is absent or the literal `nil`, and for whether a number is infinite or the variable `inf`.
-/

namespace Lox

/-- The numbers of a program that are finite. -/
def finiteNumbers (program : List Stmt) : List Float :=
  (Stmt.tokensAll program).filterMap fun
    | .number x => if Number.infinite x then none else some x
    | _ => none

theorem mem_finiteNumbers {program : List Stmt} {x : Float} :
    x ∈ finiteNumbers program ↔ .number x ∈ Stmt.tokensAll program ∧ Number.infinite x = false := by
  unfold finiteNumbers
  rw [List.mem_filterMap]
  constructor
  · rintro ⟨t, member, found⟩
    split at found
    · split at found
      · cases found
      · next finite =>
        obtain rfl := Option.some.inj found
        exact ⟨member, Bool.eq_false_iff.mpr finite⟩
    · cases found
  · rintro ⟨member, finite⟩
    exact ⟨.number x, member, by simp [finite]⟩

variable {nextId : Nat} {source : String}

theorem source_lexemes (clean : (parseSource nextId source).diagnostics = []) :
    ∀ t ∈ Stmt.tokensAll (parseSource nextId source).program, ∃ text, Lexeme text t := by
  obtain ⟨before, last, tokens, lexemes⟩ := scan_lexemes source
  have clean : (parse nextId (scan source).tokens).diagnostics = [] := (List.append_eq_nil_iff.mp clean).2
  have same : (parseSource nextId source).program = (parse nextId (scan source).tokens).program := rfl
  rw [tokens] at clean same
  obtain ⟨spells, -, -⟩ := parse_all_read (fun l member => (lexemes l member).1) rfl clean
  rw [same]
  exact spells.all ⟨_, .mark .less⟩ fun l member => (lexemes l member).2

theorem dump_ok {s : Session} {text : String} (dumped : (s.dump source).1 = .ok text) :
    (parseSource s.nextId source).diagnostics = [] ∧ text = Stmt.dump (s.program source) := by
  unfold Session.dump at dumped
  simp only at dumped
  split at dumped
  · next clean => exact ⟨clean, (Except.ok.inj dumped).symm⟩
  · cases dumped

/-- Two texts have the same Polish form just if their statements are the same, ids and lines aside, once an absent
condition or increment of a `for` is written as the literal `nil`, and an infinite number as the variable `inf`.
The numerals of the finite numbers in them are taken to tell those numbers apart. -/
theorem dump_identifies {s s' : Session} {source source' text text' : String}
    (dumped : (s.dump source).1 = .ok text) (dumped' : (s'.dump source').1 = .ok text')
    (apart : let numbers := finiteNumbers (s.program source) ++ finiteNumbers (s'.program source')
      ∀ x ∈ numbers, ∀ y ∈ numbers, Number.text x = Number.text y → x = y) :
    text = text' ↔
      Stmt.eraseAll (Stmt.shownAll (s.program source)) = Stmt.eraseAll (Stmt.shownAll (s'.program source')) := by
  obtain ⟨clean, rfl⟩ := dump_ok dumped
  obtain ⟨clean', rfl⟩ := dump_ok dumped'
  have lexemes := source_lexemes clean
  have lexemes' := source_lexemes clean'
  have finite {nextId source x} (clean : (parseSource nextId source).diagnostics = [])
      (member : x ∈ finiteNumbers (parseSource nextId source).program) :
      Number.Magnitude x ∧ Number.infinite x = false := by
    obtain ⟨token, finite⟩ := mem_finiteNumbers.mp member
    obtain ⟨spelling, lexeme⟩ := source_lexemes clean _ token
    exact ⟨magnitude_of_lexeme lexeme, finite⟩
  have tellable : Tellable (finiteNumbers (s.program source) ++ finiteNumbers (s'.program source')) :=
    ⟨fun x member => (List.mem_append.mp member).elim (finite clean) (finite clean'), apart⟩
  refine Stmt.dump_eq_iff tellable (fun t member => ⟨lexemes t member, ?_⟩) fun t member => ⟨lexemes' t member, ?_⟩
  · rintro x rfl finite
    exact List.mem_append_left _ (mem_finiteNumbers.mpr ⟨member, finite⟩)
  · rintro x rfl finite
    exact List.mem_append_right _ (mem_finiteNumbers.mpr ⟨member, finite⟩)

theorem dump_identifies_clauses :
    let source := "for (;; 1.5) print \"(; 1)\n\";"
    let source' := "for (; nil; 1.50)\nprint \"(; 1)\n\";"
    let text := "(for nil nil 1.5 (print \"(; 1)\n\"))\n"
    let s := Session.start none
    (s.dump source).1 = .ok text ∧ (s.dump source').1 = .ok text ∧
    Stmt.eraseAll (Stmt.shownAll (s.program source)) = Stmt.eraseAll (Stmt.shownAll (s.program source')) := by
  intro source source' text s
  have dumped : (s.dump source).1 = .ok text := by decide +kernel
  have dumped' : (s.dump source').1 = .ok text := by decide +kernel
  have numbers : finiteNumbers (s.program source) ++ finiteNumbers (s.program source') = [1.5, 1.5] := by decide +kernel
  refine ⟨dumped, dumped', (dump_identifies dumped dumped' ?_).mp rfl⟩
  intro listed x first y second _
  simp only [listed, numbers, List.mem_cons, List.not_mem_nil, or_false, or_self] at first second
  rw [first, second]

end Lox
