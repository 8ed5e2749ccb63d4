import Lox.Proofs.Lexeme.Pieces
import Lox.Proofs.Session.Traceless
import Lox.Proofs.Syntax.Continuation

/-!
Texts put together. Two texts with a line feed between them are read as the statements of the one and behind
them those of the other, further down. The walk over scopes carries nothing from one statement at the top
level to the next, and a run of both is a run of the one and then of the other. So a text put together from
two does what the two do one after the other, but for the lines of the second one.
-/

namespace Lox

open Session

/-! ### Reading -/

section Reading

variable {nextId : Nat} {first second : String}

theorem relabel_lines_token (f : Nat → Nat) (l : Located) :
    (l.relabel (.lines f)).token = l.token :=
  Token.relabel_kept (φ := .lines f) (fun _ => rfl) l.token

theorem parse_lines (f : Nat → Nat) (nextId : Nat) (source : String) :
    parse nextId ((scan source).tokens.map (Located.relabel (.lines f))) =
      (parse nextId (scan source).tokens).relabel (.lines f) :=
  parse_relabel (φ := .lines f) (fun _ => rfl) nextId (scan_ne_nil source)

theorem parse_lineFeed (clean : (parse nextId (scan first).tokens).diagnostics = [])
    (clean' : (parse (parse nextId (scan first).tokens).nextId (scan second).tokens).diagnostics = [])
    (f : Nat → Nat) :
    let one := parse nextId (scan first).tokens
    let two := parse one.nextId (scan second).tokens
    parse nextId ((scan first).tokens.dropLast ++ (scan second).tokens.map (Located.relabel (.lines f))) =
      ⟨one.program ++ Stmt.relabelAll (.lines f) two.program, [], two.nextId⟩ := by
  intro one two
  have lines : parse one.nextId _ = two.relabel (.lines f) := parse_lines f one.nextId second
  have cleanLines : (two.relabel (.lines f)).diagnostics = [] := congrArg (List.map _) clean'
  obtain ⟨before, last, tokens, proper⟩ := scan_tokens first
  obtain ⟨behind, last', tokens', proper'⟩ := scan_tokens second
  have moved : (scan second).tokens.map (Located.relabel (.lines f)) =
      behind.map (Located.relabel (.lines f)) ++ [⟨.endOfInput, f last'⟩] := by
    rw [tokens', List.map_append]
    rfl
  have inside : ∀ l ∈ before, l.token ≠ .endOfInput := fun l member => (proper l member).1
  have inside' : ∀ l ∈ behind.map (Located.relabel (.lines f)), l.token ≠ .endOfInput := by
    intro l member
    obtain ⟨other, given, rfl⟩ := List.mem_map.mp member
    rw [relabel_lines_token]
    exact (proper' other given).1
  have same : one = parse nextId (before ++ [⟨.endOfInput, last⟩]) := by rw [← tokens]
  rw [moved] at lines ⊢
  rw [tokens, List.dropLast_concat]
  rw [← lines] at cleanLines
  rw [same] at cleanLines
  rw [tokens] at clean
  have read := parse_append inside rfl inside' rfl clean cleanLines
  dsimp only at read
  rw [← same, lines] at read
  exact read

/-- Two texts with a line feed between them are read one after the other. -/
theorem parseSource_lineFeed (clean : (parseSource nextId first).diagnostics = [])
    (clean' : (parseSource (parseSource nextId first).nextId second).diagnostics = []) :
    let one := parseSource nextId first
    let two := parseSource one.nextId second
    parseSource nextId (first ++ "\n" ++ second) =
      ⟨one.program ++ Stmt.relabelAll (.lines (· + (1 + lineFeeds first))) two.program, [], two.nextId⟩ := by
  intro one two
  obtain ⟨scanned, parsed⟩ := List.append_eq_nil_iff.mp clean
  obtain ⟨scanned', parsed'⟩ := List.append_eq_nil_iff.mp clean'
  have whole := scan_lineFeed first second (by simp [scanned])
  have tokens := congrArg Scan.tokens whole
  have reported : (scan (first ++ "\n" ++ second)).diagnostics = [] := by
    rw [whole, Scan.join, Scan.relabel, scanned, scanned']
    rfl
  have read := parse_lineFeed parsed parsed' (· + (1 + lineFeeds first))
  unfold parseSource
  dsimp only
  rw [reported, tokens]
  exact congrArg (fun parsed : Parsed => { parsed with diagnostics := [] ++ parsed.diagnostics }) read

end Reading

/-! ### The walk over scopes -/

theorem resolveAll_append (ss ts : List Stmt) (r : Resolution) :
    Stmt.resolveAll (ss ++ ts) r = Stmt.resolveAll ts (Stmt.resolveAll ss r) := by
  induction ss generalizing r with
  | nil => rfl
  | cons s ss ih => exact ih (s.resolve r)

/-- A program that nothing is reported of leaves nothing to the walk over the next one but its distances. -/
theorem resolve_append (f : Nat → Nat) {first : List Stmt} (clean : (resolve first).diagnostics = [])
    (second : List Stmt) : Resolution.Image (.lines f) (resolve first).distances (resolve second)
      (resolve (first ++ Stmt.relabelAll (.lines f) second)) := by
  have restored := Stmt.restoredAll first .start
  have scopes : (resolve first).scopes = [] := List.length_eq_zero_iff.mp restored.depth
  have faithful : Relabeling.Faithful (.lines f) := ⟨fun _ => rfl, fun _ _ same => same⟩
  unfold resolve at *
  rw [resolveAll_append]
  exact Stmt.resolveAll_image faithful second
    ⟨scopes, fun _ => rfl, clean, restored.functionKind, restored.classKind⟩

/-! ### Machines -/

section Machines

variable {φ ψ χ : Relabeling}

theorem Machine.relabel_relabel (joins : ∀ ids, Relabeling.Joins φ ψ χ ids) (m : Machine) :
    (m.relabel φ).relabel ψ = m.relabel χ := by
  have decl (f : FunctionDecl) : (f.relabel φ).relabel ψ = f.relabel χ := f.relabel_relabel [] (joins _)
  have closure : Closure.relabel ψ ∘ Closure.relabel φ = Closure.relabel χ := by
    funext closure
    simp only [Function.comp, Closure.relabel, decl]
  have methods (table : Table String Closure) :
      (table.map fun entry => (entry.1, entry.2.relabel φ)).map (fun entry => (entry.1, entry.2.relabel ψ)) =
        table.map fun entry => (entry.1, entry.2.relabel χ) := by
    rw [List.map_map]
    exact List.map_congr_left fun entry _ => congrArg (Prod.mk entry.1) (congrFun closure entry.2)
  have made : ClassObject.relabel ψ ∘ ClassObject.relabel φ = ClassObject.relabel χ := by
    funext made
    simp only [Function.comp, ClassObject.relabel, methods]
  simp only [Machine.relabel, Heap.relabel, Array.map_map, closure, made]

theorem Machine.relabel_unchanged (m : Machine) : m.relabel .unchanged = m := by
  have closure : Closure.relabel .unchanged = id := by
    funext closure
    simp only [Closure.relabel, FunctionDecl.relabel_unchanged, id]
  have made : ClassObject.relabel .unchanged = id := by
    funext made
    simp only [ClassObject.relabel, closure, id, List.map_id']
  simp only [Machine.relabel, Heap.relabel, closure, made, Array.map_id]

theorem relabelEnd_fixed (lines : ∀ line, φ.line line = line) {r : EStateM.Result Stop Machine Unit}
    (fixed : (lastMachine r).relabel φ = lastMachine r) : relabelEnd φ id r = r := by
  cases r with
  | ok u m => exact congrArg (EStateM.Result.ok u) fixed
  | error stop m =>
    have same : stop.relabel φ = stop := by
      cases stop with
      | fault fault =>
        obtain ⟨line, error⟩ := fault
        rw [Stop.relabel, Fault.relabel, lines]
      | starved => rfl
    rw [relabelEnd, same]
    exact congrArg (EStateM.Result.error stop) fixed

/-- Distances that say the same make the same run. -/
theorem interpret_congr {distances known : Distances} (same : ∀ id, known.get? id = distances.get? id) (n : Nat)
    (program : List Stmt) (m : Machine) :
    interpret (evaluator known n) program m = interpret (evaluator distances n) program m := by
  have runs := interpret_natural (φ := .unchanged) (fun _ => rfl) same n program m
  rw [Stmt.relabelAll_unchanged, Machine.relabel_unchanged] at runs
  rw [runs]
  exact relabelEnd_fixed (fun _ => rfl) (Machine.relabel_unchanged _)

theorem interpret_append (self : Evaluator) (ss ts : List Stmt) (m : Machine) :
    interpret self (ss ++ ts) m =
      match interpret self ss m with
      | .ok _ m => interpret self ts m
      | .error stop m => .error stop m := by
  have sequence : interpret self (ss ++ ts) = (interpret self ss >>= fun _ => interpret self ts) := by
    induction ss with
    | nil => rfl
    | cons s ss ih => rw [List.cons_append, interpret, interpret, ih, bind_assoc]
  rw [sequence]
  cases ran : interpret self ss m with
  | ok u next => exact Run.bind_of_ok ran _
  | error stop next => exact Run.bind_of_error ran _

end Machines

/-! ### Sessions -/

section Sessions

variable {s : Session} {first second : String}

theorem accepted_lineFeed (accepted : Accepted s.nextId first)
    (accepted' : Accepted (parseSource s.nextId first).nextId second) :
    Accepted s.nextId (first ++ "\n" ++ second) := by
  obtain ⟨clean, resolved⟩ := List.append_eq_nil_iff.mp accepted
  obtain ⟨clean', resolved'⟩ := List.append_eq_nil_iff.mp accepted'
  have walked := resolve_append (· + (1 + lineFeeds first)) resolved
    (parseSource (parseSource s.nextId first).nextId second).program
  have read := parseSource_lineFeed clean clean'
  unfold Accepted
  rw [read]
  dsimp only
  rw [walked.diagnostics, resolved']
  rfl

theorem program_lineFeed {t : Session} (accepted : Accepted s.nextId first) (accepted' : Accepted t.nextId second)
    (nextId : t.nextId = (parseSource s.nextId first).nextId) :
    s.program (first ++ "\n" ++ second) = s.program first ++
      Stmt.relabelAll (.lines (· + (1 + lineFeeds first))) (t.program second) := by
  rw [nextId] at accepted'
  have read := parseSource_lineFeed (List.append_eq_nil_iff.mp accepted).1 (List.append_eq_nil_iff.mp accepted').1
  unfold Session.program
  rw [nextId]
  exact congrArg Parsed.program read

theorem known_get? (accepted : Accepted s.nextId first) (id : Nat) :
    (s.known first).get? id = ((resolve (s.program first)).distances.get? id).or (s.distances.get? id) := by
  obtain ⟨strata, -, lexical⟩ := accepted_read accepted
  exact Table.get?_merge (resolve_distinct strata lexical) s.distances id

/-- What is known of the two texts put together is what is known of the one and then of the other. -/
theorem known_lineFeed {t : Session} (accepted : Accepted s.nextId first) (accepted' : Accepted t.nextId second)
    (nextId : t.nextId = (parseSource s.nextId first).nextId) (distances : t.distances = s.known first) (id : Nat) :
    (s.known (first ++ "\n" ++ second)).get? id = (t.known second).get? id := by
  have resolved := (List.append_eq_nil_iff.mp accepted).2
  have walked := resolve_append (· + (1 + lineFeeds first)) resolved (t.program second)
  have both : Accepted s.nextId (first ++ "\n" ++ second) := accepted_lineFeed accepted (nextId ▸ accepted')
  have read : (resolve (s.program (first ++ "\n" ++ second))).distances.get? id =
      ((resolve (t.program second)).distances.get? id).or ((resolve (s.program first)).distances.get? id) := by
    rw [program_lineFeed accepted accepted' nextId]
    exact walked.distances id
  rw [known_get? both, known_get? accepted', distances, known_get? accepted, read, Option.or_assoc]

/-- The ids of a text are not known before it, and they are all handed out behind it. -/
theorem known_ahead {t : Session} (fresh : t.Fresh) (accepted : Accepted t.nextId second) :
    (Relabeling.shiftFrom t.nextId ((parseSource t.nextId second).nextId - t.nextId)).Matches t.distances
      (t.known second) := by
  intro id
  have changes := Relabeling.shiftFrom_changes t.nextId ((parseSource t.nextId second).nextId - t.nextId)
  have ordered := source_ordered t.nextId second
  by_cases old : id < t.nextId
  · have outside : id ∉ siteIds (Stmt.sitesAll (t.program second) []) := fun member =>
      Nat.not_le.mpr old (ordered.within id member).1
    rw [changes.below id old]
    exact (accepted_merge accepted t.distances id).trans (if_neg outside)
  · have moved : (Relabeling.shiftFrom t.nextId ((parseSource t.nextId second).nextId - t.nextId)).id id =
        id + ((parseSource t.nextId second).nextId - t.nextId) := if_neg old
    have above : t.nextId ≤ id := Nat.not_lt.mp old
    have outside : id + ((parseSource t.nextId second).nextId - t.nextId) ∉
        siteIds (Stmt.sitesAll (t.program second) []) := by
      intro member
      have below := (ordered.within _ member).2
      omega
    rw [moved, fresh id above]
    refine ((accepted_merge accepted t.distances _).trans (if_neg outside)).trans (fresh _ ?_)
    omega

theorem accepted_anywhere {source : String} (accepted : Accepted 0 source) (nextId : Nat) :
    Accepted nextId source := by
  have shifted := (accepted_shift 0 nextId source).mpr accepted
  rwa [Nat.zero_add] at shifted

/-- A text runs the same where the distances of later texts are known already. -/
theorem run_ahead (limit? : Option Nat) (steps : List Step) (n : Nat) {count : Nat} {known : Distances} :
    let s := after limit? steps
    let t := after limit? (steps ++ [.eval n first])
    Accepted s.nextId first → (Relabeling.shiftFrom t.nextId count).Matches t.distances known →
    interpret (evaluator known n) (s.program first) s.machine =
      interpret (evaluator (s.known first) n) (s.program first) s.machine := by
  intro s t accepted same
  have changes := Relabeling.shiftFrom_changes t.nextId count
  have ran : t = (s.eval n first).2 := after_append limit? steps _
  rw [eval_accepted accepted] at ran
  have nextId : t.nextId = (parseSource s.nextId first).nextId := congrArg Session.nextId ran
  have distances : t.distances = s.known first := congrArg Session.distances ran
  have machine : t.machine = _ := congrArg Session.machine ran
  have ordered := source_ordered s.nextId first
  have below : ∀ id ∈ siteIds (Stmt.sitesAll (s.program first) []), id < t.nextId := by
    intro id member
    rw [nextId]
    exact (ordered.within id member).2
  have fixed : s.machine.relabel _ = s.machine := machine_fixed limit? steps changes (nextId ▸ ordered.le)
  have last : t.machine.relabel _ = t.machine :=
    machine_fixed limit? (steps ++ [.eval n first]) changes (Nat.le_refl _)
  rw [distances] at same
  rw [machine] at last
  rw [interpret_fixed changes same n below fixed]
  exact relabelEnd_fixed (fun _ => rfl) last

/-- A run of the two texts put together is a run of the one and, if that comes to its end, of the other one further
down, provided that the distances of the other one make no difference to the one. -/
theorem run_lineFeed {t : Session} (accepted : Accepted s.nextId first) (accepted' : Accepted t.nextId second)
    (nextId : t.nextId = (parseSource s.nextId first).nextId) (distances : t.distances = s.known first) {n : Nat}
    (alone : interpret (evaluator (s.known (first ++ "\n" ++ second)) n) (s.program first) s.machine =
      interpret (evaluator (s.known first) n) (s.program first) s.machine) :
    interpret (evaluator (s.known (first ++ "\n" ++ second)) n) (s.program (first ++ "\n" ++ second)) s.machine =
      match interpret (evaluator (s.known first) n) (s.program first) s.machine with
      | .ok _ m => interpret (evaluator (t.known second) n)
          (Stmt.relabelAll (.lines (· + (1 + lineFeeds first))) (t.program second)) m
      | .error stop m => .error stop m := by
  rw [program_lineFeed accepted accepted' nextId, interpret_append, alone]
  simp only [interpret_congr (known_lineFeed accepted accepted' nextId distances)]

/-- A session on the same machine that knows the same distances and hands out the same ids is an image. -/
theorem image_same {t : Session} (nextId : t.nextId = s.nextId)
    (known : ∀ id, t.distances.get? id = s.distances.get? id) (machine : t.machine = s.machine) :
    Image .unchanged s t := by
  refine ⟨fun _ => rfl, Nat.le_of_eq nextId.symm, fun i => ?_, fun id less => ?_, known, ?_⟩
  · rw [nextId]
    rfl
  · rw [nextId]
    exact less
  · rw [machine, Machine.relabel_unchanged]

/-- So is one that has handed out more ids, whatever distances it knows of these. -/
theorem image_aware (limit? : Option Nat) (steps : List Step) (count : Nat) {t : Session} :
    let s := after limit? steps
    t.nextId = s.nextId + count → (Relabeling.shiftFrom s.nextId count).Matches s.distances t.distances →
    t.machine = s.machine → Image (.shiftFrom s.nextId count) s t := by
  intro s nextId ahead machine
  have image := image_ahead limit? steps count
  refine ⟨image.names, ?_, fun i => ?_, fun id less => ?_, ahead, ?_⟩
  · rw [nextId]
    exact image.ahead
  · rw [nextId]
    exact image.counts i
  · rw [nextId]
    exact image.below id less
  · rw [machine]
    exact image.machine

/-- Behind a text that runs to its end, the text put together does what the other text does with its lines
further down. Else it does what the first one does, and has handed out the ids of the other one. -/
theorem eval_lineFeed (limit? : Option Nat) (steps : List Step) (n : Nat) (accepted : Accepted 0 first)
    (accepted' : Accepted 0 second) :
    let s := after limit? steps
    let one := s.eval n first
    let whole := s.eval n (first ++ "\n" ++ second)
    let two := one.2.evalMarked (· + (1 + lineFeeds first)) n second
    (one.1 = .finished → whole.1 = two.1 ∧ Image .unchanged two.2 whole.2) ∧
    (one.1 ≠ .finished → whole.1 = one.1 ∧
      Image (.shiftFrom one.2.nextId (two.2.nextId - one.2.nextId)) one.2 whole.2) := by
  intro s one whole two
  have accepted₁ : Accepted s.nextId first := accepted_anywhere accepted _
  have accepted₂ : Accepted one.2.nextId second := accepted_anywhere accepted' _
  have ran : one = _ := eval_runs accepted₁ n
  have nextId : one.2.nextId = (parseSource s.nextId first).nextId := by rw [ran]
  have distances : one.2.distances = s.known first := by rw [ran]
  have ranWhole : whole = _ := eval_runs (accepted_lineFeed accepted₁ (nextId ▸ accepted₂)) n
  have ranTwo : two = _ := if_pos accepted₂
  have known : ∀ id, whole.2.distances.get? id = two.2.distances.get? id := by
    rw [ranWhole, ranTwo]
    exact known_lineFeed accepted₁ accepted₂ nextId distances
  have nextIds : whole.2.nextId = two.2.nextId := by
    have read := parseSource_lineFeed (List.append_eq_nil_iff.mp accepted₁).1
      (List.append_eq_nil_iff.mp (nextId ▸ accepted₂)).1
    have next := congrArg Parsed.nextId read
    rw [ranWhole, ranTwo, nextId]
    exact next
  have behind : after limit? (steps ++ [.eval n first]) = one.2 := after_append limit? steps _
  have ahead : (Relabeling.shiftFrom one.2.nextId (two.2.nextId - one.2.nextId)).Matches one.2.distances
      whole.2.distances := by
    intro id
    have fresh : one.2.Fresh := behind ▸ fresh_after limit? (steps ++ [.eval n first])
    rw [known, ranTwo]
    exact known_ahead fresh accepted₂ id
  have runs := run_lineFeed accepted₁ accepted₂ nextId distances
    (run_ahead limit? steps n accepted₁ (behind ▸ (ranWhole ▸ ahead)))
  cases result : interpret (evaluator (s.known first) n) (s.program first) s.machine with
  | ok u m =>
    rw [result] at ran runs
    have machine : one.2.machine = m := by rw [ran]; rfl
    have finished : one.1 = .finished := by rw [ran]; rfl
    refine ⟨fun _ => ?_, fun unfinished => absurd finished unfinished⟩
    rw [← machine] at runs
    have same : whole.1 = two.1 ∧ whole.2.machine = two.2.machine := by
      rw [ranWhole, ranTwo, runs]
      exact ⟨rfl, rfl⟩
    exact ⟨same.1, image_same nextIds known same.2⟩
  | error stop m =>
    rw [result] at ran runs
    have unfinished : one.1 ≠ .finished := by
      rw [ran]
      cases stop <;> exact Outcome.noConfusion
    refine ⟨fun finished => absurd finished unfinished, fun _ => ?_⟩
    have same : whole.1 = one.1 ∧ whole.2.machine = one.2.machine := by
      rw [ranWhole, ran, runs]
      exact ⟨rfl, rfl⟩
    have le : one.2.nextId ≤ two.2.nextId := by
      rw [ranTwo]
      exact (source_ordered one.2.nextId second).le
    have onward : whole.2.nextId = one.2.nextId + (two.2.nextId - one.2.nextId) := by omega
    have image := image_aware limit? (steps ++ [.eval n first]) (two.2.nextId - one.2.nextId) (t := whole.2)
    rw [behind] at image
    exact ⟨same.1, image onward ahead same.2⟩

/-! ### Whose node a fault is of -/

/-- A session with other lines on the nodes of all its texts. -/
def Session.remark (mark : Nat → Nat) (s : Session) : Session :=
  { s with machine := s.machine.relabel (.lines mark) }

theorem remark_unmarked (s : Session) : s.remark (fun line => line) = s := by
  have same : s.machine.relabel (.lines fun line => line) = s.machine := s.machine.relabel_unchanged
  rw [Session.remark, same]

theorem image_remark (s : Session) {f g h : Nat → Nat} (same : ∀ line, g (f line) = h line) :
    Image (.lines g) (s.remark f) (s.remark h) := by
  have joins (ids : List Nat) : Relabeling.Joins (.lines f) (.lines g) (.lines h) ids :=
    ⟨fun _ _ => rfl, same, fun _ => rfl⟩
  exact ⟨fun _ => rfl, Nat.le_refl _, fun _ => rfl, fun _ less => less, fun _ => rfl,
    (s.machine.relabel_relabel joins).symm⟩

/-- An outcome where the lines of a text are so many further down, from the one where they are not. The label is
the outcome where the nodes of that text are on line 1 and all others on line 0. -/
inductive Outcome.Further (count : Nat) : (label near far : Outcome) → Prop
  | finished : Further count .finished .finished .finished
  | rejected (diagnostics : List Diagnostic) :
    Further count (.rejected diagnostics) (.rejected diagnostics) (.rejected diagnostics)
  | starved : Further count .starved .starved .starved
  | other (line : Nat) (error : RuntimeError) :
    Further count (.faulted ⟨0, error⟩) (.faulted ⟨line, error⟩) (.faulted ⟨line, error⟩)
  | own (line : Nat) (error : RuntimeError) :
    Further count (.faulted ⟨1, error⟩) (.faulted ⟨line, error⟩) (.faulted ⟨line + count, error⟩)

inductive Session.Answer.Further (count : Nat) : (label near far : Answer) → Prop
  | ran {label near far : Outcome} (printed : ByteArray) : Outcome.Further count label near far →
    Further count (.ran label printed) (.ran near printed) (.ran far printed)
  | shown (text : Except (List Diagnostic) String) : Further count (.shown text) (.shown text) (.shown text)

/-- The same of answers one after the other. -/
inductive Session.Answer.AllFurther (count : Nat) : (labels nears fars : List Answer) → Prop
  | nil : AllFurther count [] [] []
  | cons {label near far : Answer} {labels nears fars : List Answer} : Further count label near far →
    AllFurther count labels nears fars → AllFurther count (label :: labels) (near :: nears) (far :: fars)

/-- The line of a node of which the half is the line, and which is odd for the nodes that are further down. -/
def unfoldLine (count line : Nat) : Nat :=
  if line % 2 = 1 then line / 2 + count else line / 2

theorem outcome_further (count : Nat) (outcome : Outcome) :
    Outcome.Further count (outcome.relabel (.lines (· % 2))) (outcome.relabel (.lines (· / 2)))
      (outcome.relabel (.lines (unfoldLine count))) := by
  cases outcome with
  | finished => exact .finished
  | rejected diagnostics => exact .rejected diagnostics
  | starved => exact .starved
  | faulted fault =>
    obtain ⟨line, error⟩ := fault
    simp only [Outcome.relabel, Fault.relabel, Relabeling.lines, unfoldLine]
    by_cases odd : line % 2 = 1
    · rw [if_pos odd, odd]
      exact .own _ error
    · have even : line % 2 = 0 := by omega
      rw [if_neg odd, even]
      exact .other _ error

theorem answer_further (count : Nat) (answer : Answer) :
    Answer.Further count (answer.relabel (.lines (· % 2))) (answer.relabel (.lines (· / 2)))
      (answer.relabel (.lines (unfoldLine count))) := by
  cases answer with
  | ran outcome printed => exact .ran printed (outcome_further count outcome)
  | shown text => exact .shown text

theorem answers_further (count : Nat) (answers : List Answer) :
    Answer.AllFurther count (answers.map (Answer.relabel (.lines (· % 2))))
      (answers.map (Answer.relabel (.lines (· / 2)))) (answers.map (Answer.relabel (.lines (unfoldLine count)))) := by
  induction answers with
  | nil => exact .nil
  | cons answer rest ih => exact .cons (answer_further count answer) ih

/-- A text with its lines further down does what it does where it stands, from the lines of its nodes. -/
theorem evalMarked_further (t : Session) (count n : Nat) (source : String) (rest : List Step) :
    let near := t.eval n source
    let far := t.evalMarked (· + count) n source
    let label := (t.remark fun _ => 0).evalMarked (fun _ => 1) n source
    Outcome.Further count label.1 near.1 far.1 ∧ far.2.machine.output = near.2.machine.output ∧
    Answer.AllFurther count (label.2.answersMarked (fun _ => 0) rest) (near.2.answers rest) (far.2.answers rest) := by
  intro near far label
  -- One run, with twice the line on each node, and one more on those of the text, shows all three.
  have nearLine (line : Nat) : (2 * line + 1) / 2 = line := by omega
  have farLine (line : Nat) : unfoldLine count (2 * line + 1) = line + count := by
    unfold unfoldLine
    rw [if_pos (by omega), nearLine]
  have labelLine (line : Nat) : (2 * line + 1) % 2 = 1 := by omega
  have nearOthers (line : Nat) : 2 * line / 2 = line := by omega
  have farOthers (line : Nat) : unfoldLine count (2 * line) = line := by
    unfold unfoldLine
    rw [if_neg (by omega), nearOthers]
  have labelOthers (line : Nat) : 2 * line % 2 = 0 := by omega
  have nearStart : Image (.lines (· / 2)) (t.remark (2 * ·)) (t.remark fun line => line) :=
    image_remark t nearOthers
  have farStart : Image (.lines (unfoldLine count)) (t.remark (2 * ·)) (t.remark fun line => line) :=
    image_remark t farOthers
  have labelStart : Image (.lines (· % 2)) (t.remark (2 * ·)) (t.remark fun _ => 0) :=
    image_remark t labelOthers
  rw [remark_unmarked] at nearStart farStart
  obtain ⟨near₁, near₂⟩ := nearStart.evalMarked nearLine n source
  obtain ⟨far₁, far₂⟩ := farStart.evalMarked farLine n source
  obtain ⟨label₁, label₂⟩ := labelStart.evalMarked labelLine n source
  rw [evalMarked_unmarked] at near₁ near₂
  have nearRest := answersMarked_image near₂ nearOthers rest
  have farRest := answersMarked_image far₂ farOthers rest
  have labelRest := answersMarked_image label₂ labelOthers rest
  rw [answersMarked_unmarked] at nearRest farRest
  have nearOutput := congrArg Machine.output near₂.machine
  have farOutput := congrArg Machine.output far₂.machine
  change near.1 = _ at near₁
  change far.1 = _ at far₁
  change label.1 = _ at label₁
  change near.2.answers rest = _ at nearRest
  change far.2.answers rest = _ at farRest
  change label.2.answersMarked (fun _ => 0) rest = _ at labelRest
  rw [near₁, far₁, label₁, nearRest, farRest, labelRest]
  exact ⟨outcome_further count _, farOutput.trans nearOutput.symm, answers_further count _⟩

/-- Two texts with a line feed between them do, put together, what they do one after the other. Where the first
one runs to its end, as much is printed, the outcome is that of the other one and all later steps are answered
alike, but for the lines of faults of the nodes of the other text, which are further down. Where it does not,
its outcome is that of both and all later steps are answered the same. -/
theorem lineFeed_alike (limit? : Option Nat) (steps : List Step) (n : Nat) {first second : String}
    (accepted : Accepted 0 first) (accepted' : Accepted 0 second) (rest : List Step) :
    let s := after limit? steps
    let one := s.eval n first
    let two := one.2.eval n second
    let whole := s.eval n (first ++ "\n" ++ second)
    let count := 1 + lineFeeds first
    let label := (one.2.remark fun _ => 0).evalMarked (fun _ => 1) n second
    (one.1 = .finished →
      whole.2.printedSince s.printed = two.2.printedSince s.printed ∧
      Outcome.Further count label.1 two.1 whole.1 ∧
      Answer.AllFurther count (label.2.answersMarked (fun _ => 0) rest) (two.2.answers rest)
        (whole.2.answers rest)) ∧
    (one.1 ≠ .finished →
      whole.2.printedSince s.printed = one.2.printedSince s.printed ∧ whole.1 = one.1 ∧
      whole.2.answers rest = one.2.answers rest) := by
  intro s one two whole count label
  obtain ⟨runsOn, stops⟩ := eval_lineFeed limit? steps n accepted accepted'
  refine ⟨fun finished => ?_, fun unfinished => ?_⟩
  · obtain ⟨outcome, image⟩ := runsOn finished
    obtain ⟨further, output, answers⟩ := evalMarked_further one.2 count n second rest
    have same := answers_image image (fun _ => rfl) rest
    have printed := (congrArg Machine.output image.machine).trans output
    change whole.1 = _ at outcome
    change whole.2.answers rest = _ at same
    rw [outcome, same]
    exact ⟨congrArg (Output.since · s.printed) printed, further, answers⟩
  · obtain ⟨outcome, image⟩ := stops unfinished
    have printed := congrArg Machine.output image.machine
    exact ⟨congrArg (Output.since · s.printed) printed, outcome, answers_image image (fun _ => rfl) rest⟩

theorem lineFeed_alike_undefined :
    let first := "var a;\nfun f() { h(); }"
    let second := "f;\nb;"
    let s := after none [.eval 9 "fun h() { g; }"]
    let one := s.eval 9 first
    Accepted 0 first ∧ Accepted 0 second ∧ one.1 = .finished ∧
    Outcome.Further 2 (.faulted ⟨1, .undefinedVariable "b"⟩) (one.2.eval 9 second).1
      (s.eval 9 (first ++ "\n" ++ second)).1 := by
  intro first second s one
  have accepted : Accepted 0 first := by decide +kernel
  have accepted' : Accepted 0 second := by decide +kernel
  have finished : one.1 = .finished := by decide +kernel
  have label : ((one.2.remark fun _ => 0).evalMarked (fun _ => 1) 9 second).1 =
      .faulted ⟨1, .undefinedVariable "b"⟩ := by decide +kernel
  have count : 1 + lineFeeds first = 2 := by decide +kernel
  obtain ⟨alike, -⟩ := lineFeed_alike none [.eval 9 "fun h() { g; }"] 9 accepted accepted' []
  obtain ⟨-, further, -⟩ := alike finished
  rw [count] at further
  rw [← label]
  exact ⟨accepted, accepted', finished, further⟩

end Sessions

end Lox
