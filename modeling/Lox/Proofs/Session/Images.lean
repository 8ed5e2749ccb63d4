import Lox.Proofs.Machine.Relabel
import Lox.Proofs.Scope.Relabel
import Lox.Proofs.Session.Ids

/-!
Sessions that differ in ids and lines. A session is the image of another one if it differs only in the ids
and lines that its machine and its distances have from the texts so far. Each step takes it to the image
of what the same step makes of the other one. A text that is read for the other one may have its lines
changed at once, so that texts can be told from each other by the lines of their nodes.
-/

namespace Lox

/-! ### Texts read later -/

theorem scan_ne_nil (source : String) : (scan source).tokens ≠ [] := by
  obtain ⟨before, last, tokens, -⟩ := scan_tokens source
  rw [tokens]
  simp

theorem parse_shift (nextId count : Nat) (source : String) :
    parse (nextId + count) (scan source).tokens = (parse nextId (scan source).tokens).relabel (.shift count) := by
  have read := parse_relabel (Relabeling.shift_counts count) nextId (scan_ne_nil source)
  have tokens : (scan source).tokens.map (Located.relabel (.shift count)) = (scan source).tokens :=
    List.map_id'' (Located.relabel_kept (fun _ => rfl) fun _ => rfl) _
  rwa [tokens] at read

/-- A text that is read later gives the same statements and errors, with later ids. -/
theorem parseSource_shift (nextId count : Nat) (source : String) :
    (parseSource (nextId + count) source).program =
      Stmt.relabelAll (.shift count) (parseSource nextId source).program ∧
    (parseSource (nextId + count) source).diagnostics = (parseSource nextId source).diagnostics ∧
    (parseSource (nextId + count) source).nextId = (parseSource nextId source).nextId + count := by
  have read := parse_shift nextId count source
  refine ⟨congrArg Parsed.program read, ?_, congrArg Parsed.nextId read⟩
  change _ ++ (parse (nextId + count) (scan source).tokens).diagnostics = _ ++ _
  rw [read]
  exact congrArg _ (Diagnostic.map_relabel_kept (fun _ => rfl) (fun _ => rfl) _)

/-- The walk over a program with later ids. -/
theorem resolve_shift (count : Nat) (program : List Stmt) :
    Resolution.Image (.shift count) [] (resolve program) (resolve (Stmt.relabelAll (.shift count) program)) :=
  Stmt.resolveAll_image (Relabeling.shift_faithful count) program ⟨rfl, fun _ => rfl, rfl, rfl, rfl⟩

theorem resolve_shift_diagnostics (nextId count : Nat) (source : String) :
    (resolve (parseSource (nextId + count) source).program).diagnostics =
      (resolve (parseSource nextId source).program).diagnostics := by
  rw [(parseSource_shift nextId count source).1, (resolve_shift count _).diagnostics]
  exact Diagnostic.map_relabel_kept (fun _ => rfl) (fun _ => rfl) _

theorem accepted_shift (nextId count : Nat) (source : String) :
    Accepted (nextId + count) source ↔ Accepted nextId source := by
  unfold Accepted
  rw [(parseSource_shift nextId count source).2.1, resolve_shift_diagnostics]

/-! ### Runs of texts -/

def outcomeOf : EStateM.Result Stop Machine Unit → Outcome
  | .ok _ _ => .finished
  | .error (.fault fault) _ => .faulted fault
  | .error .starved _ => .starved

def Outcome.relabel (φ : Relabeling) : Outcome → Outcome
  | .faulted fault => .faulted (fault.relabel φ)
  | outcome => outcome

theorem outcomeOf_relabelEnd (φ : Relabeling) (r : EStateM.Result Stop Machine Unit) :
    outcomeOf (relabelEnd φ id r) = (outcomeOf r).relabel φ := by
  cases r with
  | ok _ m => rfl
  | error stop m => cases stop <;> rfl

theorem lastMachine_relabelEnd (φ : Relabeling) (r : EStateM.Result Stop Machine Unit) :
    lastMachine (relabelEnd φ id r) = (lastMachine r).relabel φ := by
  cases r <;> rfl

namespace Session

variable {s t : Session} {source : String} {n : Nat}

theorem eval_outcome (accepted : Accepted s.nextId source) (n : Nat) : (s.eval n source).1 =
    outcomeOf (interpret (evaluator (s.known source) n) (s.program source) s.machine) := by
  unfold eval Accepted at *
  simp only [accepted]
  unfold known program
  split <;> simp [outcomeOf, *]

theorem eval_runs (accepted : Accepted s.nextId source) (n : Nat) :
    let result := interpret (evaluator (s.known source) n) (s.program source) s.machine
    s.eval n source =
      (outcomeOf result, ⟨(parseSource s.nextId source).nextId, s.known source, lastMachine result⟩) :=
  Prod.ext (eval_outcome accepted n) (eval_accepted accepted n)

theorem eval_rejects (rejected : ¬ Accepted s.nextId source) (n : Nat) :
    s.eval n source = (.rejected ((parseSource s.nextId source).diagnostics ++
      (resolve (s.program source)).diagnostics), { s with nextId := (parseSource s.nextId source).nextId }) := by
  refine Prod.ext ?_ (eval_rejected rejected n)
  unfold eval
  dsimp only
  split
  · next accepted => exact absurd accepted rejected
  · rfl

/-- Runs a text whose lines are changed. -/
def evalMarked (mark : Nat → Nat) (n : Nat) (s : Session) (source : String) : Outcome × Session :=
  if Accepted s.nextId source then
    let result := interpret (evaluator (s.known source) n) (Stmt.relabelAll (.lines mark) (s.program source)) s.machine
    (outcomeOf result, ⟨(parseSource s.nextId source).nextId, s.known source, lastMachine result⟩)
  else s.eval n source

theorem evalMarked_unmarked (n : Nat) (s : Session) (source : String) :
    s.evalMarked (fun line => line) n source = s.eval n source := by
  unfold evalMarked
  have same : Stmt.relabelAll (.lines fun line => line) (s.program source) = s.program source :=
    Stmt.relabelAll_unchanged _
  rw [same]
  split
  · next accepted => exact (eval_runs accepted n).symm
  · rfl

/-! ### Images -/

/-- A session with other ids and lines than another one.  It is ahead in ids, those to come included. -/
structure Image (φ : Relabeling) (s t : Session) : Prop where
  names : φ.KeepsNames
  ahead : s.nextId ≤ t.nextId
  counts : ∀ i, φ.id (s.nextId + i) = t.nextId + i
  below : ∀ id < s.nextId, φ.id id < t.nextId
  distances : φ.Matches s.distances t.distances
  machine : t.machine = s.machine.relabel φ

namespace Image

variable {φ : Relabeling}

theorem nextId_eq (image : Image φ s t) : t.nextId = s.nextId + (t.nextId - s.nextId) := by
  have le := image.ahead
  omega

theorem accepted_iff (image : Image φ s t) (source : String) :
    Accepted t.nextId source ↔ Accepted s.nextId source := by
  rw [image.nextId_eq]
  exact accepted_shift _ _ _

theorem diagnostics (image : Image φ s t) (source : String) :
    (parseSource t.nextId source).diagnostics = (parseSource s.nextId source).diagnostics := by
  rw [image.nextId_eq]
  exact (parseSource_shift _ _ source).2.1

theorem read_nextId (image : Image φ s t) (source : String) :
    (parseSource t.nextId source).nextId =
      t.nextId + ((parseSource s.nextId source).nextId - s.nextId) := by
  have le := (source_ordered s.nextId source).le
  have ahead := image.ahead
  have next : (parseSource (s.nextId + (t.nextId - s.nextId)) source).nextId = _ :=
    (parseSource_shift _ _ source).2.2
  rw [← image.nextId_eq] at next
  omega

/-- The statements of a text whose lines are changed to match. -/
theorem program (image : Image φ s t) {mark mark' : Nat → Nat} (marked : ∀ line, φ.line (mark line) = mark' line)
    (source : String) : Stmt.relabelAll (.lines mark') (t.program source) =
      Stmt.relabelAll φ (Stmt.relabelAll (.lines mark) (s.program source)) := by
  have le := image.ahead
  have read : t.program source = Stmt.relabelAll (.shift (t.nextId - s.nextId)) (s.program source) := by
    have shifted := (parseSource_shift s.nextId (t.nextId - s.nextId) source).1
    rwa [← image.nextId_eq] at shifted
  let both : Relabeling := ⟨(· + (t.nextId - s.nextId)), mark', fun name => name⟩
  rw [read, Stmt.relabelAll_relabelAll (χ := both) (s.program source) [],
    Stmt.relabelAll_relabelAll (χ := both) (s.program source) []]
  · refine ⟨fun id member => ?_, marked, image.names⟩
    have above := ((source_ordered s.nextId source).within id member).1
    have counted := image.counts (id - s.nextId)
    change φ.id id = id + (t.nextId - s.nextId)
    rw [show s.nextId + (id - s.nextId) = id by omega] at counted
    omega
  · exact ⟨fun _ _ => rfl, fun _ => rfl, fun _ => rfl⟩

/-- What a text adds to the distances of two sessions is the same but for the ids. -/
theorem known (image : Image φ s t) (accepted : Accepted s.nextId source) :
    φ.Matches (s.known source) (t.known source) := by
  intro id
  have le := image.ahead
  have accepted' := (image.accepted_iff source).mpr accepted
  have before := image.distances id
  by_cases old : id < s.nextId
  · -- Ids of the text are above those known before, on both sides.
    have outside : id ∉ siteIds (Stmt.sitesAll (s.program source) []) := fun member =>
      Nat.not_le.mpr old ((source_ordered s.nextId source).within id member).1
    have outside' : φ.id id ∉ siteIds (Stmt.sitesAll (t.program source) []) := fun member =>
      Nat.not_le.mpr (image.below id old) ((source_ordered t.nextId source).within _ member).1
    have kept := (accepted_merge accepted s.distances id).trans (if_neg outside)
    have kept' := (accepted_merge accepted' t.distances (φ.id id)).trans (if_neg outside')
    exact kept'.trans (before.trans kept.symm)
  · have shifted : φ.id id = id + (t.nextId - s.nextId) := by
      have counted := image.counts (id - s.nextId)
      rw [show s.nextId + (id - s.nextId) = id by omega] at counted
      omega
    have read : (resolve (t.program source)).distances.get? (φ.id id) =
        (resolve (s.program source)).distances.get? id := by
      have walked := (resolve_shift (t.nextId - s.nextId) (s.program source)).distances id
      have program := (parseSource_shift s.nextId (t.nextId - s.nextId) source).1
      rw [← image.nextId_eq] at program
      rw [Table.get?_nil, Option.or_none] at walked
      rw [shifted]
      change (resolve (parseSource t.nextId source).program).distances.get? _ = _
      rw [program]
      exact walked
    obtain ⟨strata, -, lexical⟩ := accepted_read accepted
    obtain ⟨strata', -, lexical'⟩ := accepted_read accepted'
    have merged := Table.get?_merge (resolve_distinct strata lexical) s.distances id
    have merged' := Table.get?_merge (resolve_distinct strata' lexical') t.distances (φ.id id)
    refine merged'.trans (Eq.trans ?_ merged.symm)
    change ((resolve (t.program source)).distances.get? _).or _ = ((resolve (s.program source)).distances.get? _).or _
    rw [read, before]

/-- Both sessions have read so many ids more. -/
theorem onward (image : Image φ s t) (count : Nat) {s' t' : Session} (next : s'.nextId = s.nextId + count)
    (next' : t'.nextId = t.nextId + count) (distances : φ.Matches s'.distances t'.distances)
    (machine : t'.machine = s'.machine.relabel φ) : Image φ s' t' := by
  have le := image.ahead
  refine ⟨image.names, by omega, fun i => ?_, fun id less => ?_, distances, machine⟩
  · have counted := image.counts (count + i)
    rw [next, next', Nat.add_assoc, Nat.add_assoc]
    exact counted
  · by_cases old : id < s.nextId
    · have below := image.below id old
      omega
    · have counted := image.counts (id - s.nextId)
      rw [show s.nextId + (id - s.nextId) = id by omega] at counted
      omega

theorem nextId_onward (s : Session) (source : String) : (parseSource s.nextId source).nextId =
    s.nextId + ((parseSource s.nextId source).nextId - s.nextId) := by
  have le := (source_ordered s.nextId source).le
  omega

/-- Nothing runs in either session. -/
theorem skip (image : Image φ s t) (source : String) :
    Image φ { s with nextId := (parseSource s.nextId source).nextId }
      { t with nextId := (parseSource t.nextId source).nextId } :=
  image.onward _ (nextId_onward s source) (image.read_nextId source) image.distances image.machine

/-- A text runs alike in both sessions. -/
theorem evalMarked (image : Image φ s t) {mark mark' : Nat → Nat} (marked : ∀ line, φ.line (mark line) = mark' line)
    (n : Nat) (source : String) :
    (t.evalMarked mark' n source).1 = (s.evalMarked mark n source).1.relabel φ ∧
      Image φ (s.evalMarked mark n source).2 (t.evalMarked mark' n source).2 := by
  unfold Session.evalMarked
  by_cases accepted : Accepted s.nextId source
  · have runs := interpret_natural image.names (image.known accepted) n
      (Stmt.relabelAll (.lines mark) (s.program source)) s.machine
    rw [← image.program marked, ← image.machine] at runs
    rw [if_pos accepted, if_pos ((image.accepted_iff source).mpr accepted), runs]
    refine ⟨outcomeOf_relabelEnd φ _, ?_⟩
    exact image.onward _ (nextId_onward s source) (image.read_nextId source) (image.known accepted)
      (lastMachine_relabelEnd φ _)
  · have rejected : ¬ Accepted t.nextId source := fun h => accepted ((image.accepted_iff source).mp h)
    have errors : (resolve (t.program source)).diagnostics = (resolve (s.program source)).diagnostics := by
      have shifted := resolve_shift_diagnostics s.nextId (t.nextId - s.nextId) source
      rwa [← image.nextId_eq] at shifted
    rw [if_neg accepted, if_neg rejected, eval_rejects accepted, eval_rejects rejected, image.diagnostics, errors]
    exact ⟨rfl, image.skip source⟩

/-- A text is shown alike in both sessions. -/
theorem dump (image : Image φ s t) (source : String) :
    (t.dump source).1 = (s.dump source).1 ∧ Image φ (s.dump source).2 (t.dump source).2 := by
  rw [dump_after, dump_after]
  refine ⟨?_, image.skip source⟩
  have text : Stmt.dump (parseSource t.nextId source).program = Stmt.dump (parseSource s.nextId source).program := by
    rw [image.nextId_eq, (parseSource_shift _ _ source).1]
    exact Stmt.dump_relabelAll (fun _ => rfl) _
  unfold Session.dump
  dsimp only
  rw [image.diagnostics, text]
  split <;> rfl

end Image

end Session

end Lox
