import Lox.Proofs.Machine.Jumps
import Lox.Proofs.Session.Points

/-!
Control does not leave what it is in. In the runs of a session a break and a continue end only statements
inside a loop of the same function, and a return only those inside a function: a program goes on behind each
of its statements, and a call takes a value or nothing from the body.
-/

namespace Lox

open Session

variable {limit? : Option Nat} {steps before : List Step} {source : String} {program : List Stmt}
variable {chain : List Place} {inLoop inFunction : Bool} {part : Part}

/-- The parts of a program that a session runs are placed as the grammar wants them. -/
theorem AcceptedIn.placed (inside : AcceptedIn limit? steps program)
    (stands : Stands program chain inLoop inFunction part) : part.Placed inLoop inFunction := by
  obtain ⟨before, depth, source, -, accepted, rfl⟩ := inside
  obtain ⟨strata, placed, lexical⟩ := accepted_read accepted
  exact (stands.fits strata placed lexical).placed

/-- The program of a text without an error of the reader, and the points that its run comes by: each
statement ends as its place allows, those of the program normally, and neither a body nor a loop ends by a
break or a continue. -/
theorem jumps_contained
    (clean : (parse (after limit? before).nextId (scan source).tokens).diagnostics = []) :
    let s := after limit? before
    (∀ chain inLoop inFunction stmt, Stands (s.program source) chain inLoop inFunction (.stmt stmt) →
      stmt.EndsBy (Flow.Allowed inLoop inFunction)) ∧
    (∀ stmt ∈ s.program source, stmt.EndsBy (· = .normal)) ∧
    (∀ chain inLoop inFunction decl, Stands (s.program source) chain inLoop inFunction (.function decl) →
      decl.EndsBy Flow.PastLoops) ∧
    (∀ test body, (Stmt.whileLoop test body).EndsBy Flow.PastLoops) ∧
    (∀ initial? test? step? body, (Stmt.forLoop initial? test? step? body).EndsBy Flow.PastLoops) ∧
    ∀ depth m,
      (∀ frame stmt, s.Visits depth source ⟨.stmt frame stmt, m⟩ → ∃ program chain inLoop inFunction,
        AcceptedIn limit? (before ++ [.eval depth source]) program ∧
        Stands program chain inLoop inFunction (.stmt stmt) ∧
        stmt.EndsBy (Flow.Allowed inLoop inFunction)) ∧
      (∀ closure arguments, s.Visits depth source ⟨.invoke closure arguments, m⟩ →
        closure.decl.EndsBy Flow.PastLoops) := by
  intro s
  obtain ⟨strata, placed, lexical⟩ := source_read clean
  have fits {chain : List Place} {inLoop inFunction : Bool} {part : Part}
      (stands : Stands (s.program source) chain inLoop inFunction part) : part.Placed inLoop inFunction :=
    (stands.fits strata placed lexical).placed
  refine ⟨fun chain inLoop inFunction stmt stands => ?_, fun stmt member => ?_,
    fun chain inLoop inFunction decl stands => ?_, while_endsBy, for_endsBy, fun depth m => ⟨?_, ?_⟩⟩
  · have placed : stmt.Placed inLoop inFunction := fits stands
    exact placed.endsBy
  · intro distances n frame m flow m' done
    have allowed : flow.Allowed false false := stmt_allowed (Stmt.placed_mem placed member) done
    exact Flow.normal_of_allowed allowed
  · have placed : decl.Placed := fits stands
    exact placed.endsBy
  -- What a run comes by may stand in a text that ran before.
  · intro frame stmt visits
    obtain ⟨-, expected⟩ := visits_expected visits
    obtain ⟨chain, inLoop, inFunction, program, inside, stands, -⟩ := expected
    have placed : stmt.Placed inLoop inFunction := inside.placed stands
    exact ⟨program, chain, inLoop, inFunction, inside, stands, placed.endsBy⟩
  · intro closure arguments visits
    obtain ⟨-, -, chain, program, inside, stands, -⟩ := visits_expected visits
    have placed : closure.decl.Placed := inside.placed stands
    exact placed.endsBy

theorem jumps_contained_while :
    (parse (after none []).nextId (scan "while (true) break;").tokens).diagnostics = [] ∧
    (after none []).program "while (true) break;" = [.whileLoop (.literal (.bool true)) .breakLoop] ∧
    (∃ m, (evaluator [] 2).stmt Heap.globals .breakLoop (.start none) = .ok .broke m) ∧
    Stmt.breakLoop.EndsBy (Flow.Allowed true false) ∧
    (Stmt.whileLoop (.literal (.bool true)) .breakLoop).EndsBy (· = .normal) := by
  have clean : (parse (after none []).nextId (scan "while (true) break;").tokens).diagnostics = [] := by
    decide +kernel
  have program : (after none []).program "while (true) break;" =
    [.whileLoop (.literal (.bool true)) .breakLoop] := rfl
  obtain ⟨within, onward, -⟩ := jumps_contained clean
  have body : Stands ((after none []).program "while (true) break;") [] true false (.stmt .breakLoop) := by
    rw [program]
    exact .whileBody (.first .program)
  refine ⟨clean, program, ⟨_, rfl⟩, within _ _ _ _ body, onward _ ?_⟩
  rw [program]
  exact List.mem_singleton.mpr rfl

end Lox
