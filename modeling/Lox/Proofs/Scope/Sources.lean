import Lox.Session
import Lox.Proofs.Syntax.Soundness
import Lox.Proofs.Scope.Walk

/-!
What is known of a text without errors. Its words are names or keywords and never both, its statements
are those of the grammar, and each of its references is sent where it belongs.
-/

namespace Lox

/-! ### Words -/

/-- What a lexeme can be. A name is spelled unlike all keywords. -/
def Token.Proper (t : Token) : Prop :=
  t ≠ .endOfInput ∧ ∀ name, t = .identifier name → Keyword.ofSpelling? name = none

theorem ofWord_proper (word : String) : (Token.ofWord word).Proper := by
  unfold Token.ofWord
  split
  · exact ⟨Token.noConfusion, fun _ same => Token.noConfusion same⟩
  · next free =>
    refine ⟨Token.noConfusion, fun name same => ?_⟩
    obtain rfl := Token.identifier.inj same
    exact free

theorem proper_of_kind {t u : Token} (proper : t.Proper) (kind : SegmentKind.lexeme t = .lexeme u) : u.Proper := by
  obtain rfl := SegmentKind.lexeme.inj kind
  exact proper

theorem proper_of_literal {t : Token} (other : ∀ name, t ≠ .identifier name) (inside : t ≠ .endOfInput) :
    t.Proper :=
  ⟨inside, fun name same => absurd same (other name)⟩

theorem markSegment_proper {c : Char} {m : Mark} {cs : List Char} {t : Token}
    (kind : (markSegment c m cs).kind = .lexeme t) : t.Proper := by
  unfold markSegment at kind
  split at kind
  · split at kind
    · exact proper_of_kind (proper_of_literal (by simp) (by simp)) kind
    · exact proper_of_kind (proper_of_literal (by simp) (by simp)) kind
  · exact proper_of_kind (proper_of_literal (by simp) (by simp)) kind

theorem slashSegment_proper {cs : List Char} {t : Token} (kind : (slashSegment cs).kind = .lexeme t) :
    t.Proper := by
  unfold slashSegment at kind
  split at kind
  · cases kind
  · split at kind <;> cases kind
  · exact proper_of_kind (proper_of_literal (by simp) (by simp)) kind

theorem first_proper {c : Char} {cs : List Char} {t : Token} (kind : (Segment.first c cs).kind = .lexeme t) :
    t.Proper := by
  unfold Segment.first at kind
  split at kind
  · cases kind
  split at kind
  · exact slashSegment_proper kind
  split at kind
  · unfold stringSegment at kind
    split at kind
    · cases kind
    · exact proper_of_kind (proper_of_literal (by simp) (by simp)) kind
  split at kind
  · unfold numberSegment at kind
    split at kind <;> exact proper_of_kind (proper_of_literal (by simp) (by simp)) kind
  split at kind
  · exact proper_of_kind (ofWord_proper _) kind
  split at kind
  · exact markSegment_proper kind
  · cases kind

theorem segmentsFrom_proper {skip : Nat} {cs : List Char} {t : Token} :
    ∀ segment ∈ segmentsFrom skip cs, segment.kind = .lexeme t → t.Proper := by
  fun_induction segmentsFrom skip cs with
  | case1 =>
    intro other member
    cases member
  | case2 c cs segment ih =>
    intro other member kind
    rcases List.mem_cons.mp member with rfl | member
    · exact first_proper kind
    · exact ih other member kind
  | case3 _ _ _ ih => exact ih

theorem ofSegments_tokens {P : Token → Prop} (segments : List Segment) (line : Nat)
    (all : ∀ segment ∈ segments, ∀ t, segment.kind = .lexeme t → P t) :
    ∃ before last, (Scan.ofSegments line segments).tokens = before ++ [⟨.endOfInput, last⟩] ∧
      ∀ l ∈ before, P l.token := by
  induction segments generalizing line with
  | nil => exact ⟨[], line, rfl, by simp⟩
  | cons segment segments ih =>
    obtain ⟨before, last, tokens, inside⟩ := ih (line + segment.text.count '\n')
      fun other member => all other (List.mem_cons_of_mem _ member)
    unfold Scan.ofSegments Scan.add
    simp only
    split
    case h_4 t kind =>
      refine ⟨⟨t, line + segment.text.count '\n'⟩ :: before, last, ?_, fun l member => ?_⟩
      · rw [List.cons_append, ← tokens]
      · rcases List.mem_cons.mp member with rfl | member
        · exact all segment List.mem_cons_self t kind
        · exact inside l member
    all_goals exact ⟨before, last, tokens, inside⟩

/-- The tokens of a text are proper ones up to the end of the input. -/
theorem scan_tokens (source : String) :
    ∃ before last, (scan source).tokens = before ++ [⟨.endOfInput, last⟩] ∧ ∀ l ∈ before, l.token.Proper :=
  ofSegments_tokens _ _ fun segment member _ kind => segmentsFrom_proper segment member kind

/-- What holds of the tokens of a text, and of the `<` that a colon may stand for, holds of those it spells. -/
theorem Spells.all {P : Token → Prop} {ts : List Token} {ls : List Located} (spells : Spells ts ls)
    (less : P (.mark .less)) (all : ∀ l ∈ ls, P l.token) : ∀ t ∈ ts, P t := by
  induction spells with
  | nil => exact fun t member => nomatch member
  | cons t line _ ih =>
    obtain ⟨first, others⟩ := List.forall_mem_cons.mp all
    exact List.forall_mem_cons.mpr ⟨first, ih others⟩
  | colon name _ _ _ _ ih =>
    simp only [List.forall_mem_cons] at all ⊢
    exact ⟨all.1, all.2.1, less, ih all.2.2.2⟩

theorem spells_mem {ts : List Token} {ls : List Located} {name : String} (spells : Spells ts ls)
    (member : .identifier name ∈ ts) : ∃ l ∈ ls, l.token = .identifier name := by
  induction spells with
  | nil => cases member
  | cons t line _ ih =>
    rcases List.mem_cons.mp member with rfl | member
    · exact ⟨⟨.identifier name, line⟩, List.mem_cons_self, rfl⟩
    · obtain ⟨l, inside, same⟩ := ih member
      exact ⟨l, List.mem_cons_of_mem _ inside, same⟩
  | colon other first second third _ ih =>
    simp only [List.mem_cons, reduceCtorEq, false_or] at member
    rcases member with same | member
    · exact ⟨⟨.identifier other, second⟩, by simp, same.symm⟩
    · obtain ⟨l, inside, same⟩ := ih member
      exact ⟨l, by simp [inside], same⟩

theorem lexical_of_spells {ts : List Token} {ls : List Located} (spells : Spells ts ls)
    (proper : ∀ l ∈ ls, l.token.Proper) : Lexical ts := by
  intro name member
  obtain ⟨l, inside, same⟩ := spells_mem spells member
  have free := (proper l inside).2 name same
  constructor <;> rintro rfl
  · exact absurd (free.symm.trans (Keyword.ofSpelling?_spelling .thisWord)) (by simp)
  · exact absurd (free.symm.trans (Keyword.ofSpelling?_spelling .superWord)) (by simp)

/-! ### Texts without errors -/

/-- Neither the reader nor the walk over the statements has found an error in a text. -/
def Accepted (nextId : Nat) (source : String) : Prop :=
  (parseSource nextId source).diagnostics ++ (resolve (parseSource nextId source).program).diagnostics = []

instance (nextId : Nat) (source : String) : Decidable (Accepted nextId source) :=
  inferInstanceAs (Decidable (_ = _))

/-- A program as the grammar wants it, each reference of which some distances send where it belongs. -/
structure Sound (distances : Distances) (program : List Stmt) : Prop where
  strata : Stmt.StratifiedAll program
  placed : Stmt.PlacedAll false false program
  lexical : Lexical (Stmt.tokensAll program)
  agrees : ∀ site ∈ Stmt.sitesAll program [], site.Agrees distances

theorem Sound.congr {distances other : Distances} {program : List Stmt} (sound : Sound distances program)
    (same : ∀ id ∈ siteIds (Stmt.sitesAll program []), other.get? id = distances.get? id) :
    Sound other program :=
  { sound with agrees := fun site member => (sound.agrees site member).congr (same _ (mem_siteIds member)) }

variable {nextId : Nat} {source : String}

/-- What is read from a text without an error of the reader is a program as the grammar wants it. -/
theorem source_read (clean : (parse nextId (scan source).tokens).diagnostics = []) :
    let program := (parseSource nextId source).program
    Stmt.StratifiedAll program ∧ Stmt.PlacedAll false false program ∧ Lexical (Stmt.tokensAll program) := by
  intro program
  obtain ⟨before, last, tokens, proper⟩ := scan_tokens source
  have same : program = (parse nextId (scan source).tokens).program := rfl
  rw [tokens] at clean same
  obtain ⟨spells, strata, placed⟩ := parse_all_read (fun l member => (proper l member).1) rfl clean
  rw [same]
  exact ⟨strata, placed, lexical_of_spells spells proper⟩

theorem accepted_read (accepted : Accepted nextId source) :
    let program := (parseSource nextId source).program
    Stmt.StratifiedAll program ∧ Stmt.PlacedAll false false program ∧ Lexical (Stmt.tokensAll program) := by
  obtain ⟨clean, -⟩ := List.append_eq_nil_iff.mp accepted
  exact source_read (List.append_eq_nil_iff.mp clean).2

theorem source_ordered (nextId : Nat) (source : String) :
    Ascending nextId (parseSource nextId source).nextId
      (siteIds (Stmt.sitesAll (parseSource nextId source).program [])) :=
  parse_ordered nextId (scan source).tokens []

/-- The walk over an accepted program sends its references where they belong. -/
theorem accepted_sound (accepted : Accepted nextId source) :
    Sound (resolve (parseSource nextId source).program).distances (parseSource nextId source).program := by
  obtain ⟨strata, placed, lexical⟩ := accepted_read accepted
  obtain ⟨-, clean⟩ := List.append_eq_nil_iff.mp accepted
  exact ⟨strata, placed, lexical, resolve_agrees strata lexical clean (source_ordered nextId source).nodup⟩

/-- Of the distances known before, a program without errors changes only those of its own references. -/
theorem resolve_merge {program : List Stmt} (strata : Stmt.StratifiedAll program)
    (lexical : Lexical (Stmt.tokensAll program)) (clean : (resolve program).diagnostics = []) (known : Distances)
    (id : Nat) : (known.merge (resolve program).distances).get? id =
      if id ∈ siteIds (Stmt.sitesAll program []) then ((resolve program).distances.get? id).or (known.get? id)
      else known.get? id := by
  rw [Table.get?_merge (resolve_distinct strata lexical)]
  split
  · rfl
  · next outside =>
    rw [resolve_others strata lexical clean outside]
    rfl

theorem accepted_merge (accepted : Accepted nextId source) (known : Distances) (id : Nat) :
    (known.merge (resolve (parseSource nextId source).program).distances).get? id =
      if id ∈ siteIds (Stmt.sitesAll (parseSource nextId source).program []) then
        ((resolve (parseSource nextId source).program).distances.get? id).or (known.get? id)
      else known.get? id := by
  obtain ⟨strata, -, lexical⟩ := accepted_read accepted
  obtain ⟨-, clean⟩ := List.append_eq_nil_iff.mp accepted
  exact resolve_merge strata lexical clean known id

end Lox
