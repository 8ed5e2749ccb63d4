import Lox.Proofs.Machine.Breakpoints

/-!
Limited output. Under a limit of some bytes a run does what it does without one, up to the print statement whose
line goes beyond them. There it is cut short, and of that line the bytes that fit are written.
-/

namespace Lox

open Contract Run

variable {α β : Type} {N : Nat}

/-! ### Bytes under a limit -/

theorem extract_fitting {bytes : ByteArray} (fits : bytes.size ≤ N) : bytes.extract 0 N = bytes := by
  apply ByteArray.ext
  rw [ByteArray.data_extract]
  exact Array.extract_eq_self_of_le fits

/-- What is behind the limit does not matter. -/
theorem extract_beyond {bytes : ByteArray} (beyond : N ≤ bytes.size) (more : ByteArray) :
    (bytes ++ more).extract 0 N = bytes.extract 0 N := by
  rw [ByteArray.extract_append, Nat.sub_eq_zero_of_le beyond, Nat.zero_sub, ByteArray.extract_same,
    ByteArray.append_empty]

/-- Of some bytes those are written that fit. -/
theorem Output.write_limited {written : ByteArray} (room : written.size ≤ N) (bytes : ByteArray) :
    (Output.mk written (some N)).write bytes =
      (decide ((written ++ bytes).size ≤ N), ⟨(written ++ bytes).extract 0 N, some N⟩) := by
  have fits : (bytes.extract 0 (N - written.size)).size = bytes.size ↔ (written ++ bytes).size ≤ N := by
    rw [ByteArray.size_extract, ByteArray.size_append]
    omega
  rw [ByteArray.extract_append, extract_fitting room, Nat.zero_sub]
  exact Prod.ext (decide_eq_decide.mpr fits) rfl

/-! ### Machines under a limit -/

/-- The machine with its output limited. -/
def Machine.limit (N : Nat) (m : Machine) : Machine :=
  ⟨m.heap, m.output.written, some N⟩

def Point.limit (N : Nat) (p : Point) : Point :=
  ⟨p.task, p.machine.limit N⟩

/-- The end of a run with its output limited. -/
def limitEnd (N : Nat) : EStateM.Result Stop Machine α → EStateM.Result Stop Machine α
  | .ok a m => .ok a (m.limit N)
  | .error e m => .error e (m.limit N)

/-- Between two machines something is written. -/
structure Machine.Writes (m m' : Machine) : Prop where
  limit : m'.output.limit? = m.output.limit?
  written : ∃ more, m'.output.written = m.output.written ++ more

namespace Machine.Writes

variable {m m₁ m' : Machine}

theorem of_output (same : m'.output = m.output) : m.Writes m' := by
  refine ⟨by rw [same], .empty, ?_⟩
  rw [same, ByteArray.append_empty]

theorem trans (first : m.Writes m₁) (second : m₁.Writes m') : m.Writes m' := by
  obtain ⟨limit, more, written⟩ := first
  obtain ⟨limit', more', written'⟩ := second
  exact ⟨limit'.trans limit, more ++ more', by rw [written', written, ByteArray.append_assoc]⟩

theorem size_le (writes : m.Writes m') : m.output.written.size ≤ m'.output.written.size := by
  obtain ⟨more, written⟩ := writes.written
  rw [written, ByteArray.size_append]
  exact Nat.le_add_right _ _

end Machine.Writes

/-- Runs write one thing behind the other. -/
def printing (distances : Distances) : Contract where
  distances := distances
  visited _ := True
  expects _ := True
  holds _ := True
  grows := Machine.Writes
  refl _ := .of_output rfl
  trans := .trans

/-! ### Runs that are cut short -/

/-- The line that a print statement writes for some texts. -/
def lineOf (texts : List String) : ByteArray :=
  (" ".intercalate texts ++ "\n").toUTF8

/-- At a point stands a print statement. With its items looked at, there is room for more on the machine, but its
line goes beyond the limit. -/
structure Point.Overflows (distances : Distances) (N : Nat) (p : Point) (line : Nat) (texts : List String)
    (before : Machine) : Prop where
  prints : ∃ frame items n, p.task = .stmt frame (.print items line) ∧
    each ((evaluator distances n).textOf frame) items p.machine = .ok texts before
  room : before.output.written.size ≤ N
  beyond : N < (before.output.written ++ lineOf texts).size

/-- A run under a limit stops at a line that the run without a limit writes. -/
structure CutShort (distances : Distances) (N : Nat) (r r' : EStateM.Result Stop Machine α) (p : Point) (line : Nat)
    (texts : List String) (before : Machine) : Prop where
  overflows : p.Overflows distances N line texts before
  written : ∃ more, (lastMachine r).output.written = before.output.written ++ lineOf texts ++ more
  ends : r' = .error (.fault ⟨line, .outputFull⟩)
    ⟨before.heap, (before.output.written ++ lineOf texts).extract 0 N, some N⟩

/-- How a run ends without a limit and under one, if it comes by some points. -/
structure Limited (distances : Distances) (N : Nat) (passed : Point → Prop) (r r' : EStateM.Result Stop Machine α) :
    Prop where
  fits : (lastMachine r).output.written.size ≤ N → r' = limitEnd N r
  full : N < (lastMachine r).output.written.size →
    ∃ p line texts before, passed p ∧ CutShort distances N r r' p line texts before

namespace Limited

variable {distances : Distances} {passed passed' : Point → Prop} {m m' : Machine}

theorem imp {r r' : EStateM.Result Stop Machine α} (limited : Limited distances N passed r r')
    (weaker : ∀ p, passed p → passed' p) : Limited distances N passed' r r' := by
  refine ⟨limited.fits, fun exceeds => ?_⟩
  obtain ⟨p, line, texts, before, passes, cut⟩ := limited.full exceeds
  exact ⟨p, line, texts, before, weaker p passes, cut⟩

theorem of_room {r r' : EStateM.Result Stop Machine α} (room : (lastMachine r).output.written.size ≤ N)
    (same : r' = limitEnd N r) : Limited distances N passed r r' :=
  ⟨fun _ => same, fun exceeds => absurd room (Nat.not_le_of_lt exceeds)⟩

/-- A run that has room goes on under the limit as it does without. -/
theorem bind {x x' : Run α} {f f' : α → Run β} (first : Limited distances N passed (x m) (x' m'))
    (further : ∀ a m₁, x m = .ok a m₁ → m₁.Writes (lastMachine (f a m₁)))
    (rest : ∀ a m₁, x m = .ok a m₁ → x' m' = .ok a (m₁.limit N) → m₁.output.written.size ≤ N →
      Limited distances N passed (f a m₁) (f' a (m₁.limit N))) :
    Limited distances N passed ((x >>= f) m) ((x' >>= f') m') := by
  cases result : x m with
  | error e m₁ =>
    rw [result] at first
    rw [bind_of_error result]
    refine ⟨fun le => bind_of_error (first.fits le) f', fun exceeds => ?_⟩
    obtain ⟨p, line, texts, before, passes, cut⟩ := first.full exceeds
    exact ⟨p, line, texts, before, passes, cut.overflows, cut.written, bind_of_error cut.ends f'⟩
  | ok a m₁ =>
    have onward := further a m₁ result
    rw [result] at first
    rw [bind_of_ok result]
    by_cases room : m₁.output.written.size ≤ N
    · have result' := first.fits room
      rw [bind_of_ok result']
      exact rest a m₁ result result' room
    · -- The line that goes beyond the limit is written by the first run already.
      have exceeds := Nat.lt_of_not_le room
      refine ⟨fun le => absurd (Nat.le_trans onward.size_le le) room, fun _ => ?_⟩
      obtain ⟨p, line, texts, before, passes, cut⟩ := first.full exceeds
      obtain ⟨more, written⟩ := cut.written
      obtain ⟨later, written'⟩ := onward.written
      refine ⟨p, line, texts, before, passes, cut.overflows, ⟨more ++ later, ?_⟩, bind_of_error cut.ends f'⟩
      change m₁.output.written = _ at written
      rw [written', written, ByteArray.append_assoc]

end Limited

/-- A line is written whole without a limit. -/
theorem printLine_unlimited {m : Machine} (unlimited : m.output.limit? = none) (line : Nat) (texts : List String) :
    printLine line (" ".intercalate texts) m =
      .ok () ⟨m.heap, m.output.written ++ lineOf texts, none⟩ := by
  obtain ⟨heap, written, limit?⟩ := m
  obtain rfl : limit? = none := unlimited
  exact if_pos (decide_eq_true rfl)

/-- Under a limit it is written as far as it fits. -/
theorem printLine_limited {m : Machine} (room : m.output.written.size ≤ N) (line : Nat) (texts : List String) :
    let ended : Machine := ⟨m.heap, (m.output.written ++ lineOf texts).extract 0 N, some N⟩
    printLine line (" ".intercalate texts) (m.limit N) =
      if (m.output.written ++ lineOf texts).size ≤ N then .ok () ended
      else .error (.fault ⟨line, .outputFull⟩) ended := by
  intro ended
  have written := Output.write_limited room (lineOf texts)
  unfold printLine Machine.limit
  rw [← lineOf]
  simp only [written, decide_eq_true_eq]
  rfl

theorem printLine_cut {distances : Distances} {passed : Point → Prop} {m : Machine}
    (unlimited : m.output.limit? = none) (room : m.output.written.size ≤ N) {line : Nat} {texts : List String}
    {p : Point} (here : passed p)
    (prints : ∃ frame items n, p.task = .stmt frame (.print items line) ∧
      each ((evaluator distances n).textOf frame) items p.machine = .ok texts m) :
    Limited distances N passed (printLine line (" ".intercalate texts) m)
      (printLine line (" ".intercalate texts) (m.limit N)) := by
  rw [printLine_unlimited unlimited, printLine_limited room]
  refine ⟨fun le => ?_, fun exceeds => ?_⟩
  · change (m.output.written ++ lineOf texts).size ≤ N at le
    rw [if_pos le, extract_fitting le]
    rfl
  · change N < (m.output.written ++ lineOf texts).size at exceeds
    refine ⟨p, line, texts, m, here, ⟨prints, room, exceeds⟩, ⟨.empty, ByteArray.append_empty.symm⟩, ?_⟩
    exact if_neg (Nat.not_le_of_lt exceeds)

/-! ### Rules -/

/-- What is run with an evaluator, under a limit and without one. -/
structure Prints (distances : Distances) (N n : Nat) (x : Evaluator → Run α) : Prop where
  safe : ∀ m, (printing distances).Safe n x m fun _ _ => True
  limited : ∀ m, m.output.limit? = none → m.output.written.size ≤ N →
    Limited distances N
      (fun p => (printing distances).Passes n x m p ∧ (printing distances).Passes n x (m.limit N) (p.limit N))
      (x (evaluator distances n) m) (x (evaluator distances n) (m.limit N))

namespace Prints

variable {distances : Distances} {n : Nat} {x : Evaluator → Run α} {m : Machine} {p : Point}

theorem kept (prints : Prints distances N n x) (m : Machine) :
    (printing distances).Kept n x m fun _ _ => True :=
  prints.safe m trivial fun _ _ => trivial

theorem writes (prints : Prints distances N n x) {a : α} {m' : Machine}
    (result : x (evaluator distances n) m = .ok a m') : m.Writes m' := by
  have grows := (prints.kept m).ends.grows
  change m.Writes (lastMachine (x (evaluator distances n) m)) at grows
  rwa [result] at grows

/-- What neither asks the evaluator nor writes. -/
theorem const {y : Run α} (quiet : ∀ m, (lastMachine (y m)).output = m.output)
    (same : ∀ m, y (m.limit N) = limitEnd N (y m)) : Prints distances N n fun _ => y := by
  refine ⟨fun m => Safe.const fun _ => ?_, fun m _ room => .of_room ?_ (same m)⟩
  · have writes : m.Writes (lastMachine (y m)) := .of_output (quiet m)
    cases result : y m with
    | ok a m' =>
      rw [result] at writes
      exact ⟨trivial, writes, trivial⟩
    | error e m' =>
      rw [result] at writes
      exact ⟨trivial, writes⟩
  · rw [quiet m]
    exact room

theorem stop (e : Stop) : Prints distances N n fun _ => (throw e : Run α) :=
  const (fun _ => rfl) fun _ => rfl

theorem change (f : Heap → Heap) : Prints distances N n fun _ => Run.change f :=
  const (fun _ => rfl) fun _ => rfl

theorem make (f : Heap → α × Heap) : Prints distances N n fun _ => Run.make f :=
  const (fun _ => rfl) fun _ => rfl

theorem andThen {f : Evaluator → α → Run β} (first : Prints distances N n x)
    (rest : ∀ a, Prints distances N n fun self => f self a) :
    Prints distances N n fun self => x self >>= f self := by
  refine ⟨fun m => (first.safe m).bind fun a m' _ _ _ => (rest a).safe m', fun m unlimited room => ?_⟩
  have starts := (first.limited m unlimited room).imp fun p both =>
    And.intro (both.1.first (f := f)) (both.2.first (f := f))
  refine starts.bind (fun a m₁ _ => ((rest a).kept m₁).ends.grows) fun a m₁ result result' room₁ => ?_
  refine ((rest a).limited m₁ ((first.writes result).limit.trans unlimited) room₁).imp fun p ⟨passes, passes'⟩ => ?_
  exact ⟨.second ((first.kept m).passes p) result passes, .second ((first.kept _).passes _) result' passes'⟩

theorem enter {task : Task} {body : Evaluator → Run α}
    (guarded : ∀ p stop, x (breakpoint distances p stop (n + 1)) =
      p.guard stop task (body (breakpoint distances p stop n)))
    (step : x (evaluator distances (n + 1)) = body (evaluator distances n))
    (inner : Prints distances N n body) : Prints distances N (n + 1) x := by
  refine ⟨fun m => Safe.enter task body step guarded fun _ => ⟨trivial, inner.safe m⟩, fun m unlimited room => ?_⟩
  rw [step]
  refine (inner.limited m unlimited room).imp fun p ⟨passes, passes'⟩ => ?_
  exact ⟨passes_inside guarded passes, passes_inside guarded passes'⟩

/-- A print statement is where a run may be cut short. -/
theorem print {frame : Ref .frame} {items : List Expr} {line : Nat}
    (looks : Prints distances N n fun self => each (self.textOf frame) items) :
    Prints distances N (n + 1) fun self => self.stmt frame (.print items line) := by
  let task := Task.stmt frame (.print items line)
  let write (_ : Evaluator) (texts : List String) : Run Flow := do
    printLine line (" ".intercalate texts)
    return .normal
  let body (self : Evaluator) : Run Flow := each (self.textOf frame) items >>= write self
  have guarded (p : Point) (stop : Stop) : (breakpoint distances p stop (n + 1)).stmt frame (.print items line) =
      p.guard stop task (body (breakpoint distances p stop n)) := rfl
  have safe (texts : List String) (m : Machine) :
      (printing distances).Safe n (fun self => write self texts) m fun _ _ => True := by
    refine Safe.bind (Safe.printLine fun _ _ => ?_) fun _ _ _ _ _ => Safe.pure fun _ => trivial
    exact ⟨trivial, rfl, _, rfl⟩
  have inside {p : Point} {m : Machine}
      (passes : (printing distances).Passes n (fun self => each (self.textOf frame) items) m p) :
      (printing distances).Passes (n + 1) (fun self => self.stmt frame (.print items line)) m p :=
    passes_inside guarded passes.first
  have here (m : Machine) : (printing distances).Passes (n + 1) (fun self => self.stmt frame (.print items line)) m
      ⟨task, m⟩ := passes_here guarded m
  refine ⟨fun m => ?_, fun m unlimited room => ?_⟩
  · exact Safe.enter task body rfl guarded
      fun _ => ⟨trivial, (looks.safe m).bind fun texts m₁ _ _ _ => safe texts m₁⟩
  · have starts := (looks.limited m unlimited room).imp fun p both => And.intro (inside both.1) (inside both.2)
    refine starts.bind (fun texts m₁ _ => (safe texts m₁ trivial fun _ _ => trivial).ends.grows)
      fun texts m₁ result _ room₁ => ?_
    have unlimited₁ := (looks.writes result).limit.trans unlimited
    exact Limited.bind (printLine_cut unlimited₁ room₁ (p := ⟨task, m⟩) ⟨here m, here (m.limit N)⟩
      ⟨frame, items, n, rfl, result⟩) (fun _ _ _ => .of_output rfl) fun _ m₂ _ _ room₂ => .of_room room₂ rfl

end Prints

/-- What is run under a limit passes from parts to wholes. -/
theorem prints_composes (distances : Distances) (N : Nat) : Composes distances fun n x => Prints distances N n x where
  pure _ := .const (fun _ => rfl) fun _ => rfl
  fault _ _ := .stop _
  starve := .stop _
  read _ := .const (fun _ => rfl) fun _ => rfl
  andThen := .andThen
  addFrame _ := .make _
  addClosure _ := .make _
  addClass _ := .make _
  addInstance _ := .make _
  addArray _ := .make _
  bind _ _ _ := .change _
  bindParams _ _ _ := .change _
  setField _ _ _ := .change _
  setElement _ _ _ := .change _
  pushElement _ _ := .change _
  starved step := ⟨fun _ => Contract.Safe.starved step, fun m _ room => by
    rw [evaluator, step]
    exact .of_room room rfl⟩
  expr := .enter (fun _ _ => rfl) rfl
  print := .print
  stmt _ := .enter (fun _ _ => rfl) rfl
  invoke := .enter (fun _ _ => rfl) rfl

theorem interpret_prints (distances : Distances) (N n : Nat) (program : List Stmt) :
    Prints distances N n fun self => interpret self program :=
  composed_interpret (prints_composes distances N) n program

theorem interpret_writes (distances : Distances) (n : Nat) (program : List Stmt) (m : Machine) :
    m.Writes (lastMachine (interpret (evaluator distances n) program m)) :=
  ((interpret_prints distances 0 n program).kept m).ends.grows

/-- A program under a limit does what it does without one, up to the print statement that goes beyond the limit. -/
theorem limited_interpret (distances : Distances) (n : Nat) (program : List Stmt) {m : Machine}
    (unlimited : m.output.limit? = none) (room : m.output.written.size ≤ N) :
    Limited distances N
      (fun p => ∀ stop, interpret (breakpoint distances p stop n) program m = .error stop p.machine ∧
        interpret (breakpoint distances (p.limit N) stop n) program (m.limit N) = .error stop (p.machine.limit N))
      (interpret (evaluator distances n) program m) (interpret (evaluator distances n) program (m.limit N)) := by
  refine ((interpret_prints distances N n program).limited m unlimited room).imp fun p passes stop => ?_
  exact ⟨passes.1 stop, passes.2 stop⟩

end Lox
