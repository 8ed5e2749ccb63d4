import Lox.Proofs.Machine.Layout

/-!
Runs of a program with a variable renamed. On heaps that are alike such a run does what the run of the given
program does, step by step: it prints the same, leaves heaps that are alike and ends in the same way, but that
a fault for want of a variable may name the variable by its new name.
-/

namespace Lox

open Run

/-! ### Ends alike -/

/-- Two errors that are the same but for the name of an undefined variable. -/
inductive RuntimeError.Alike (ρ : Renaming) : RuntimeError → RuntimeError → Prop
  | same (error : RuntimeError) : Alike ρ error error
  | undefinedVariable (marked : Bool) (name : String) :
    Alike ρ (.undefinedVariable name) (.undefinedVariable (ρ.name marked name))

inductive Stop.Alike (ρ : Renaming) : Stop → Stop → Prop
  | fault (line : Nat) {error error' : RuntimeError} : error.Alike ρ error' →
    Alike ρ (.fault ⟨line, error⟩) (.fault ⟨line, error'⟩)
  | starved : Alike ρ .starved .starved

structure Machine.Alike (ρ : Renaming) (d : Distances) (L : Layout) (m m' : Machine) : Prop where
  heap : m.heap.Alike ρ d L m'.heap
  output : m'.output = m.output

/-- Two runs end alike: with machines that are, under a layout that has grown, and with values that are related
or both with a stop. -/
inductive Run.EndsAlike (ρ : Renaming) (d : Distances) (L : Layout) {α β : Type} (R : Layout → α → β → Prop) :
    EStateM.Result Stop Machine α → EStateM.Result Stop Machine β → Prop
  | ok {more : Layout} {a : α} {b : β} {m m' : Machine} : L <+: more → m.Alike ρ d more m' → R more a b →
    EndsAlike ρ d L R (.ok a m) (.ok b m')
  | error {more : Layout} {stop stop' : Stop} {m m' : Machine} : L <+: more → m.Alike ρ d more m' →
    stop.Alike ρ stop' → EndsAlike ρ d L R (.error stop m) (.error stop' m')

/-- On machines that are alike, now or later, two runs end alike. -/
def Run.Alike (ρ : Renaming) (d : Distances) (L : Layout) {α β : Type} (R : Layout → α → β → Prop) (x : Run α)
    (y : Run β) : Prop :=
  ∀ more m m', L <+: more → m.Alike ρ d more m' → EndsAlike ρ d more R (x m) (y m')

/-- The same value, whatever the layout. -/
def Same {α : Type} (_ : Layout) (a b : α) : Prop :=
  b = a

namespace Run

section Rules

variable {ρ : Renaming} {d : Distances} {L L' : Layout} {α α' β β' : Type}
variable {R : Layout → α → α' → Prop} {S : Layout → β → β' → Prop}

theorem Alike.mono {x : Run α} {y : Run α'} (alike : Alike ρ d L R x y) (later : L <+: L') : Alike ρ d L' R x y :=
  fun more m m' grown => alike more m m' (later.trans grown)

theorem alike_pure {a : α} {b : α'} (related : ∀ more, L <+: more → R more a b) :
    Alike ρ d L R (pure a) (pure b) :=
  fun more _ _ grown machines => .ok (List.prefix_refl more) machines (related more grown)

theorem alike_done (a : α) : Alike ρ d L Same (pure a) (pure a) :=
  alike_pure fun _ _ => rfl

theorem alike_fault (line : Nat) {error error' : RuntimeError} (alike : error.Alike ρ error') :
    Alike ρ d L R (fault line error) (fault line error') :=
  fun more _ _ _ machines => .error (List.prefix_refl more) machines (.fault line alike)

theorem alike_starve : Alike ρ d L R starve starve :=
  fun more _ _ _ machines => .error (List.prefix_refl more) machines .starved

theorem EndsAlike.since {e : EStateM.Result Stop Machine α} {e' : EStateM.Result Stop Machine α'}
    (ends : EndsAlike ρ d L' R e e') (later : L <+: L') : EndsAlike ρ d L R e e' := by
  cases ends with
  | ok further machines related => exact .ok (later.trans further) machines related
  | error further machines stops => exact .error (later.trans further) machines stops

theorem Alike.bind {x : Run α} {y : Run α'} {k : α → Run β} {l : α' → Run β'} (first : Alike ρ d L R x y)
    (second : ∀ more a b, L <+: more → R more a b → Alike ρ d more S (k a) (l b)) :
    Alike ρ d L S (x >>= k) (y >>= l) := by
  intro now m m' grown machines
  change EndsAlike ρ d now S (EStateM.bind x k m) (EStateM.bind y l m')
  unfold EStateM.bind
  have ends := first now m m' grown machines
  revert ends
  generalize x m = e
  generalize y m' = e'
  intro ends
  cases ends with
  | ok later between related =>
    exact (second _ _ _ (grown.trans later) related _ _ _ (List.prefix_refl _) between).since later
  | error later machines stops => exact .error later machines stops

/-- A value that is the same goes on alike. -/
theorem Alike.andThen {x y : Run α} {k : α → Run β} {l : α → Run β'} (first : Alike ρ d L Same x y)
    (second : ∀ more a, L <+: more → Alike ρ d more S (k a) (l a)) : Alike ρ d L S (x >>= k) (y >>= l) := by
  refine first.bind fun more a b grown same => ?_
  subst same
  exact second more _ grown

theorem alike_read {p : Heap → α} {q : Heap → α'}
    (related : ∀ more h h', L <+: more → h.Alike ρ d more h' → R more (p h) (q h')) :
    Alike ρ d L R (read p) (read q) :=
  fun more m m' grown machines =>
    .ok (List.prefix_refl more) machines (related more m.heap m'.heap grown machines.heap)

theorem alike_look {p q : Heap → α}
    (same : ∀ more h h', L <+: more → h.Alike ρ d more h' → q h' = p h) : Alike ρ d L Same (read p) (read q) :=
  alike_read same

theorem alike_change {p q : Heap → Heap}
    (alike : ∀ more h h', L <+: more → h.Alike ρ d more h' → (p h).Alike ρ d more (q h')) :
    Alike ρ d L Same (change p) (change q) :=
  fun more m m' grown machines =>
    .ok (List.prefix_refl more) ⟨alike more m.heap m'.heap grown machines.heap, machines.output⟩ rfl

/-- What is made gets the same reference. -/
theorem alike_make {p q : Heap → α × Heap} (alike : ∀ more h h', L <+: more → h.Alike ρ d more h' →
    (q h').1 = (p h).1 ∧ (p h).2.Alike ρ d more (q h').2) : Alike ρ d L Same (make p) (make q) := by
  intro more m m' grown machines
  obtain ⟨same, heaps⟩ := alike more m.heap m'.heap grown machines.heap
  exact .ok (List.prefix_refl more) ⟨heaps, machines.output⟩ same

/-- A frame that is made within another one, with or without its variable renamed. -/
theorem alike_addFrame {parent : Ref .frame} {marks : Marks} (tracks : L.Tracks parent marks) (own : Bool) :
    Alike ρ d L (fun more r r' => r' = r ∧ more.Tracks r (own :: marks)) (make (·.addFrame parent))
      (make (·.addFrame parent)) := by
  intro more m m' grown machines
  obtain ⟨made, made', heaps⟩ := machines.heap.addFrame parent own
  refine .ok (List.prefix_append more _) ⟨heaps, machines.output⟩ ⟨made'.trans made.symm, ?_⟩
  have inner := (tracks.mono grown).enter own
  rwa [← made] at inner

theorem alike_ofExcept (line : Nat) (a : Except RuntimeError α) :
    Alike ρ d L Same (ofExcept line a) (ofExcept line a) := by
  cases a with
  | error error => exact alike_fault line (.same error)
  | ok a => exact alike_done a

theorem alike_ofOption (line : Nat) {error error' : RuntimeError} (alike : error.Alike ρ error') (a? : Option α) :
    Alike ρ d L Same (ofOption line error a?) (ofOption line error' a?) := by
  cases a? with
  | none => exact alike_fault line alike
  | some a => exact alike_done a

/-- Related options have related values, or none. -/
theorem alike_ofRelated (line : Nat) {error error' : RuntimeError} (alike : error.Alike ρ error') {a? : Option α}
    {b? : Option α'} (related : Option.Rel (R L) a? b?) (mono : ∀ more a b, L <+: more → R L a b → R more a b) :
    Alike ρ d L R (ofOption line error a?) (ofOption line error' b?) := by
  cases related with
  | none => exact alike_fault line alike
  | some related => exact alike_pure fun more grown => mono more _ _ grown related

theorem alike_printLine (line : Nat) (text : String) :
    Alike ρ d L Same (printLine line text) (printLine line text) := by
  intro more m m' grown machines
  unfold printLine
  rw [machines.output]
  dsimp only
  split
  · exact .ok (List.prefix_refl more) ⟨machines.heap, rfl⟩ rfl
  · exact .error (List.prefix_refl more) ⟨machines.heap, rfl⟩ (.fault line (.same _))

theorem alike_each {p : α → Run β} {q : α' → Run β} {f : α → α'} (alike : ∀ a, Alike ρ d L Same (p a) (q (f a)))
    (as : List α) : Alike ρ d L Same (each p as) (each q (as.map f)) := by
  induction as with
  | nil => exact alike_done []
  | cons a as ih =>
    exact (alike a).andThen fun _ first grown => (ih.mono grown).andThen fun _ others _ => alike_done (first :: others)

theorem alike_rounds {test test' : Run Bool} {body body' : Run Flow} (tests : Alike ρ d L Same test test')
    (bodies : Alike ρ d L Same body body') (n : Nat) : Alike ρ d L Same (rounds n test body) (rounds n test' body') := by
  induction n with
  | zero => exact alike_starve
  | succ n ih =>
    refine tests.andThen fun _ goesOn grown => ?_
    cases goesOn with
    | false => exact alike_done _
    | true =>
      refine (bodies.mono grown).andThen fun _ flow grown' => ?_
      cases flow with
      | normal => exact ih.mono (grown.trans grown')
      | continued => exact ih.mono (grown.trans grown')
      | broke => exact alike_done _
      | returned value => exact alike_done _

end Rules

end Run

/-! ### Operations -/

section Operations

variable {ρ : Renaming} {d : Distances} {L : Layout} {frame : Ref .frame} {marks : Marks}

/-- A variable that is missing is missed under its name in the scope where it should be. -/
theorem undefined_alike (use : Use) : RuntimeError.Alike ρ (.undefinedVariable use.name)
    (.undefinedVariable (use.rename ρ d marks).name) := by
  obtain ⟨marked, name⟩ := ρ.nameAt_eq marks (d.get? use.id) use.name
  rw [Use.rename, name]
  exact .undefinedVariable marked use.name

theorem readVariable_alike (tracks : L.Tracks frame marks) (use : Use) :
    Run.Alike ρ d L Same (readVariable d frame use) (readVariable d frame (use.rename ρ d marks)) := by
  refine (alike_look fun more h h' grown heaps => ?_).andThen fun _ value? _ =>
    alike_ofOption _ (undefined_alike use) value?
  exact heaps.lookup? (tracks.mono grown) use.id use.name

/-- The frame in which a variable is changed, and the name that it has there. -/
def Use.Target (ρ : Renaming) (d : Distances) (marks : Marks) (use : Use) (L : Layout) (t t' : Ref .frame) : Prop :=
  t' = t ∧ ∃ slot, L.slot? t = some slot ∧ (use.rename ρ d marks).name = ρ.name slot.marked use.name

theorem Heap.Alike.assigned? {h h' : Heap} (alike : h.Alike ρ d L h') (tracks : L.Tracks frame marks) (use : Use) :
    Option.Rel (use.Target ρ d marks L)
      ((h.target? d frame use.id).filter fun r => (h.binding? r use.name).isSome)
      ((h'.target? d frame use.id).filter fun r => (h'.binding? r (use.rename ρ d marks).name).isSome) := by
  obtain ⟨same, slots⟩ := alike.target? tracks use.id
  rw [same]
  cases reached : h.target? d frame use.id with
  | none => exact .none
  | some t =>
    obtain ⟨slot, found, named⟩ := slots t reached
    have name : (use.rename ρ d marks).name = ρ.name slot.marked use.name := named use.name
    rw [Option.filter_some, Option.filter_some, name, alike.binding? found]
    split
    · exact .some ⟨rfl, slot, found, name⟩
    · exact .none

theorem assignVariable_alike (tracks : L.Tracks frame marks) (use : Use) (value : Value) :
    Run.Alike ρ d L Same (assignVariable d frame use value)
      (assignVariable d frame (use.rename ρ d marks) value) := by
  refine (alike_read fun more h h' grown heaps => heaps.assigned? (tracks.mono grown) use).bind
    fun more target? target?' _ targets => ?_
  refine (alike_ofRelated _ (undefined_alike use) targets fun later t t' grown target => ?_).bind
    fun later target target' _ related => ?_
  · obtain ⟨same, slot, found, name⟩ := target
    exact ⟨same, slot, Layout.slot?_mono grown found, name⟩
  · obtain ⟨rfl, slot, found, name⟩ := related
    refine (alike_change fun last h h' grown heaps => ?_).andThen fun _ _ _ => alike_done value
    rw [name]
    exact heaps.bind (Layout.slot?_mono grown found) use.name value

/-- A name that stays is bound in a frame. -/
theorem alike_bind (tracks : L.Tracks frame marks) {name : String} (kept : ρ.name (marks.headD false) name = name)
    (value : Value) : Run.Alike ρ d L Same (change (·.bind frame name value)) (change (·.bind frame name value)) :=
  alike_change fun _ _ _ grown heaps => heaps.bind_kept (tracks.mono grown) kept value

theorem bindMethod_alike {method method' : Closure} (same : Closure.SameMethod ρ d L method method')
    (receiver : Ref .instance) :
    Run.Alike ρ d L (Closure.Same ρ d) (bindMethod method receiver) (bindMethod method' receiver) := by
  obtain ⟨marks, tracks, renamed⟩ := same.decl
  unfold bindMethod
  rw [same.scope]
  refine (alike_addFrame tracks false).bind fun more frame _ _ related => ?_
  obtain ⟨rfl, inside⟩ := related
  refine (alike_bind inside (ρ.name_this _) _).andThen fun later _ grown => alike_pure fun last further => ?_
  exact ⟨⟨false :: marks, inside.mono (grown.trans further), renamed⟩, rfl, same.isInitializer⟩

theorem methodValue_alike {method method' : Closure} (same : Closure.SameMethod ρ d L method method')
    (receiver : Ref .instance) :
    Run.Alike ρ d L Same (methodValue method receiver) (methodValue method' receiver) := by
  refine (bindMethod_alike same receiver).bind fun more bound bound' _ bounds => ?_
  refine (alike_make fun later h h' grown heaps => ?_).andThen fun _ r _ => alike_done (Value.function r)
  exact heaps.addClosure (bounds.mono grown)

/-- A method that is found, for an instance. -/
theorem foundMethod_alike {method? method?' : Option Closure} (line : Nat) (error : RuntimeError)
    (related : Option.Rel (Closure.SameMethod ρ d L) method? method?') (receiver : Ref .instance) :
    Run.Alike ρ d L Same (do methodValue (← ofOption line error method?) receiver)
      (do methodValue (← ofOption line error method?') receiver) :=
  (alike_ofRelated line (.same error) related fun _ _ _ grown same => same.mono grown).bind
    fun _ _ _ _ same => methodValue_alike same receiver

theorem readProperty_alike (receiver : Ref .instance) (name : String) (line : Nat) :
    Run.Alike ρ d L Same (readProperty receiver name line) (readProperty receiver name line) := by
  refine (alike_look fun more h h' grown heaps => by rw [heaps.resembles.instance?]).andThen fun more value? _ => ?_
  cases value? with
  | some value => exact alike_done value
  | none =>
    refine (alike_read fun later h h' grown heaps => ?_).bind fun later method? method?' _ related =>
      foundMethod_alike line (.undefinedProperty name) related receiver
    rw [heaps.resembles.instance?]
    cases h.instance? receiver with
    | none => exact .none
    | some made => exact heaps.method? made.classRef name

/-- A word of the language is bound to the same so far out. -/
theorem alike_outward (tracks : L.Tracks frame marks) (distance : Nat) {name : String}
    (kept : ∀ marked, ρ.name marked name = name) :
    Run.Alike ρ d L Same (read fun h => (h.ancestor? frame distance).bind (h.binding? · name))
      (read fun h => (h.ancestor? frame distance).bind (h.binding? · name)) := by
  refine alike_look fun more h h' grown heaps => ?_
  obtain ⟨same, slots⟩ := heaps.ancestor? (tracks.mono grown) distance
  rw [same]
  cases reached : h.ancestor? frame distance with
  | none => rfl
  | some t =>
    obtain ⟨around?, found⟩ := slots t reached
    exact heaps.binding?_keyword kept ⟨_, found⟩

theorem readSuper_alike (tracks : L.Tracks frame marks) (id : Nat) (name : String) (line : Nat) :
    Run.Alike ρ d L Same (readSuper d frame id name line) (readSuper d frame id name line) := by
  unfold readSuper
  split
  · next distance found =>
    refine (alike_outward tracks (distance + 1) ρ.name_super).andThen fun more value? grown => ?_
    split
    · next superclass =>
      refine (alike_outward (tracks.mono grown) distance ρ.name_this).andThen fun more value? grown => ?_
      split
      · next receiver =>
        exact (alike_read fun later h h' grown heaps => heaps.method? superclass name).bind
          fun later method? method?' _ related => foundMethod_alike line (.undefinedProperty name) related receiver
      · exact alike_fault line (.same _)
    · exact alike_fault line (.same _)
  · exact alike_fault line (.same _)

theorem locate_alike (sequence index : Value) (line : Nat) :
    Run.Alike ρ d L Same (locate sequence index line) (locate sequence index line) := by
  refine (alike_ofOption line (.same _) _).andThen fun more array _ => ?_
  refine (alike_look fun later h h' grown heaps => by rw [heaps.resembles.elements]).andThen fun more length _ => ?_
  exact (alike_ofExcept line _).andThen fun _ place _ => alike_done (array, place)

theorem readElement_alike (sequence index : Value) (line : Nat) :
    Run.Alike ρ d L Same (readElement sequence index line) (readElement sequence index line) :=
  (locate_alike sequence index line).andThen fun _ _ _ =>
    alike_look fun _ _ _ _ heaps => by rw [heaps.resembles.elements]

theorem assignElement_alike (sequence index value : Value) (line : Nat) :
    Run.Alike ρ d L Same (assignElement sequence index value line) (assignElement sequence index value line) :=
  (locate_alike sequence index line).andThen fun _ place _ =>
    (alike_change fun _ _ _ _ heaps => heaps.setElement place.1 place.2 value).andThen fun _ _ _ => alike_done value

theorem native_alike (native : Native) (arguments : List Value) (line : Nat) :
    Run.Alike ρ d L Same (native.run arguments line) (native.run arguments line) := by
  unfold Native.run
  split
  · next r rest =>
    refine (alike_look fun _ h h' _ heaps => ?_).andThen fun _ length _ => alike_done _
    rw [heaps.resembles.elements]
  · next r value rest =>
    refine (alike_change fun _ h h' _ heaps => heaps.pushElement r value).andThen fun _ _ _ => ?_
    refine (alike_look fun _ h h' _ heaps => ?_).andThen fun _ length _ => alike_done _
    rw [heaps.resembles.elements]
  · exact alike_fault line (.same _)

theorem checkArity_alike (expected found line : Nat) :
    Run.Alike ρ d L Same (checkArity expected found line) (checkArity expected found line) := by
  unfold checkArity
  split
  · exact alike_done ()
  · exact alike_fault line (.same _)

/-- What calls functions that are the same does the same with them. -/
def Run.InvokesAlike (ρ : Renaming) (d : Distances) (invoke invoke' : Closure → List Value → Run Value) : Prop :=
  ∀ {L : Layout} {c c' : Closure}, Closure.Same ρ d L c c' → ∀ arguments,
    Run.Alike ρ d L Same (invoke c arguments) (invoke' c' arguments)

theorem call_alike {invoke invoke' : Closure → List Value → Run Value} (alike : InvokesAlike ρ d invoke invoke')
    (callee : Value) (arguments : List Value) (line : Nat) :
    Run.Alike ρ d L Same (call invoke callee arguments line) (call invoke' callee arguments line) := by
  unfold call
  split
  · next r =>
    refine (alike_read fun more h h' grown heaps => heaps.closures r).bind fun more closure? closure?' _ related => ?_
    refine (alike_ofRelated line (.same .notCallable) related fun _ _ _ grown same => same.mono grown).bind
      fun more closure closure' _ same => ?_
    rw [same.arity]
    exact (checkArity_alike _ _ _).andThen fun later _ grown => alike (same.mono grown) arguments
  · next native => exact (checkArity_alike _ _ _).andThen fun _ _ _ => native_alike native arguments line
  · next r =>
    refine (alike_read fun more h h' grown heaps => heaps.method? r initName).bind
      fun more method? method?' _ related => ?_
    have adds {L : Layout} : Run.Alike ρ d L Same (make (·.addInstance r)) (make (·.addInstance r)) :=
      alike_make fun _ _ _ _ heaps => heaps.addInstance r
    cases related with
    | none => exact (checkArity_alike _ _ _).andThen fun _ _ _ => adds.andThen fun _ receiver _ => alike_done _
    | @some initializer initializer' same =>
      dsimp only
      rw [same.arity]
      refine (checkArity_alike _ _ _).andThen fun _ _ grown => adds.andThen fun _ receiver grown' => ?_
      exact (bindMethod_alike (same.mono (grown.trans grown')) receiver).bind fun _ bound bound' _ bounds =>
        (alike bounds arguments).andThen fun _ _ _ => alike_done _
  · exact alike_fault line (.same _)

/-! ### Classes -/

theorem methodTable_alike {scope : Ref .frame} {methods methods' : List FunctionDecl}
    (tracks : L.Tracks scope marks) (renamed : FunctionDecl.RenamedAll ρ d (false :: marks) methods methods')
    (name : String) : Option.Rel (Closure.SameMethod ρ d L) ((methodTable scope methods).get? name)
      ((methodTable scope methods').get? name) := by
  have onto {t t' : Table String Closure}
      (related : ∀ name, Option.Rel (Closure.SameMethod ρ d L) (t.get? name) (t'.get? name)) :
      Option.Rel (Closure.SameMethod ρ d L)
        ((methods.foldl (fun t m => t.put m.name ⟨m, scope, m.name = initName⟩) t).get? name)
        ((methods'.foldl (fun t m => t.put m.name ⟨m, scope, m.name = initName⟩) t').get? name) := by
    induction methods generalizing methods' t t' with
    | nil =>
      cases renamed
      exact related name
    | cons method methods ih =>
      cases renamed with
      | cons first others =>
        refine ih others fun name => ?_
        dsimp only
        rw [first.name, Table.get?_put, Table.get?_put]
        split
        · exact .some ⟨⟨marks, tracks, first⟩, rfl, rfl⟩
        · exact related name
  exact onto fun _ => .none

theorem readSuperclass_alike (tracks : L.Tracks frame marks) (line : Nat) (superclass? : Option Use) :
    Run.Alike ρ d L (fun _ r? r?' => r?' = r? ∧ r?.isSome = superclass?.isSome)
      (readSuperclass d frame line superclass?)
      (readSuperclass d frame line (superclass?.map (Use.rename ρ d marks))) := by
  cases superclass? with
  | none => exact alike_pure fun _ _ => ⟨rfl, rfl⟩
  | some use =>
    refine (readVariable_alike tracks use).andThen fun _ value _ => ?_
    cases value with
    | classObject r => exact alike_pure fun _ _ => ⟨rfl, rfl⟩
    | _ => exact alike_fault line (.same _)

/-- The frame in which the methods of a class are declared, with the scopes around it. -/
theorem methodScope_alike (tracks : L.Tracks frame marks) (superclass? : Option Use)
    {r? : Option (Ref .classObject)} (given : r?.isSome = superclass?.isSome) :
    Run.Alike ρ d L (fun more scope scope' => scope' = scope ∧
      ∃ around, more.Tracks scope around ∧ methodMarks superclass? marks = false :: around)
      (methodScope frame r?) (methodScope frame r?) := by
  unfold methodMarks
  rw [← given]
  cases r? with
  | none => exact alike_pure fun more grown => ⟨rfl, marks, tracks.mono grown, rfl⟩
  | some superclass =>
    refine (alike_addFrame tracks false).bind fun more scope _ _ related => ?_
    obtain ⟨rfl, inside⟩ := related
    refine (alike_bind inside (ρ.name_super _) _).andThen fun later _ grown => alike_pure fun last further => ?_
    exact ⟨rfl, false :: marks, inside.mono (grown.trans further), rfl⟩

theorem declareClass_alike (tracks : L.Tracks frame marks) {name : String}
    (kept : ρ.name (marks.headD false) name = name) (superclass? : Option Use) {methods methods' : List FunctionDecl}
    (renamed : FunctionDecl.RenamedAll ρ d (methodMarks superclass? marks) methods methods') (line : Nat) :
    Run.Alike ρ d L Same (declareClass d frame name superclass? methods line)
      (declareClass d frame name (superclass?.map (Use.rename ρ d marks)) methods' line) := by
  refine (readSuperclass_alike tracks line superclass?).bind fun more r? _ first related => ?_
  obtain ⟨rfl, given⟩ := related
  have outside := tracks.mono first
  refine (alike_bind outside kept .nil).andThen fun more _ second => ?_
  have outside := outside.mono second
  refine (methodScope_alike outside superclass? given).bind fun more scope _ third related => ?_
  obtain ⟨rfl, around, inside, marksInside⟩ := related
  rw [marksInside] at renamed
  refine (alike_make fun later h h' grown heaps => ?_).andThen fun later made fourth =>
    alike_bind (outside.mono (third.trans fourth)) kept _
  exact heaps.addClass ⟨rfl, rfl, methodTable_alike (inside.mono grown) renamed⟩

end Operations

/-! ### Expressions and statements -/

/-- An evaluator does with the variable renamed what another one does with the given program. -/
structure Evaluator.Alike (ρ : Renaming) (d : Distances) (given other : Evaluator) : Prop where
  expr : ∀ {L : Layout} {frame : Ref .frame} {marks : Marks}, L.Tracks frame marks → ∀ e : Expr,
    Run.Alike ρ d L Same (given.expr frame e) (other.expr frame (e.rename ρ d marks))
  stmt : ∀ {L : Layout} {frame : Ref .frame} {marks : Marks} {s s' : Stmt}, L.Tracks frame marks →
    s.Renamed ρ d marks s' → Run.Alike ρ d L Same (given.stmt frame s) (other.stmt frame s')
  invoke : InvokesAlike ρ d given.invoke other.invoke

namespace Evaluator

variable {ρ : Renaming} {d : Distances} {L : Layout} {frame : Ref .frame} {marks : Marks}
variable {self other : Evaluator}

theorem test_alike (alike : self.Alike ρ d other) (tracks : L.Tracks frame marks) (e : Expr) :
    Run.Alike ρ d L Same (self.test frame e) (other.test frame (e.rename ρ d marks)) :=
  (alike.expr tracks e).andThen fun _ v _ => alike_done v.truthy

theorem exprOrNil_alike (alike : self.Alike ρ d other) (tracks : L.Tracks frame marks) (e? : Option Expr) :
    Run.Alike ρ d L Same (self.exprOrNil frame e?) (other.exprOrNil frame (e?.map (Expr.rename ρ d marks))) := by
  cases e? with
  | none => exact alike_done Value.nil
  | some e => exact alike.expr tracks e

theorem testOrTrue_alike (alike : self.Alike ρ d other) (tracks : L.Tracks frame marks) (e? : Option Expr) :
    Run.Alike ρ d L Same (self.testOrTrue frame e?) (other.testOrTrue frame (e?.map (Expr.rename ρ d marks))) := by
  cases e? with
  | none => exact alike_done true
  | some e => exact test_alike alike tracks e

theorem renameAll_eq_map (es : List Expr) : Expr.renameAll ρ d marks es = es.map (Expr.rename ρ d marks) := by
  induction es with
  | nil => rfl
  | cons e es ih => rw [Expr.renameAll, ih, List.map_cons]

theorem each_alike (alike : self.Alike ρ d other) (tracks : L.Tracks frame marks) (es : List Expr) :
    Run.Alike ρ d L Same (each (self.expr frame) es) (each (other.expr frame) (Expr.renameAll ρ d marks es)) := by
  rw [renameAll_eq_map]
  exact alike_each (alike.expr tracks) es

theorem evalExpr_alike (alike : self.Alike ρ d other) (tracks : L.Tracks frame marks) (e : Expr) :
    Run.Alike ρ d L Same (self.evalExpr d frame e) (other.evalExpr d frame (e.rename ρ d marks)) := by
  cases e with
  | literal value => exact alike_done value.toValue
  | group inner => exact alike.expr tracks inner
  | unary op operand line => exact (alike.expr tracks operand).andThen fun _ v _ => alike_ofExcept line (op.apply v)
  | binary op left right line =>
    refine (alike.expr tracks left).andThen fun _ l grown => ?_
    split
    · exact alike_done l
    · exact (alike.expr (tracks.mono grown) right).andThen fun _ r _ => alike_ofExcept line (op.apply l r)
  | conditional test consequent alternative =>
    refine (test_alike alike tracks test).andThen fun _ goesOn grown => ?_
    cases goesOn with
    | true => exact alike.expr (tracks.mono grown) consequent
    | false => exact alike.expr (tracks.mono grown) alternative
  | var use => exact readVariable_alike tracks use
  | assign target value =>
    exact (alike.expr tracks value).andThen fun _ v grown => assignVariable_alike (tracks.mono grown) target v
  | thisRef id line =>
    have reads := readVariable_alike (ρ := ρ) (d := d) tracks ⟨id, thisName, line⟩
    rwa [Use.rename, ρ.nameAt_this] at reads
  | superRef id method line => exact readSuper_alike tracks id method line
  | call callee arguments line =>
    refine (alike.expr tracks callee).andThen fun _ f grown => ?_
    exact (each_alike alike (tracks.mono grown) arguments).andThen fun _ vs _ => call_alike alike.invoke f vs line
  | field object name line =>
    refine (alike.expr tracks object).andThen fun _ v _ => ?_
    exact (alike_ofOption line (.same _) _).andThen fun _ receiver _ => readProperty_alike receiver name line
  | setField object name value line =>
    refine (alike.expr tracks object).andThen fun _ v grown => ?_
    refine (alike_ofOption line (.same _) _).andThen fun _ receiver grown' => ?_
    refine (alike.expr (tracks.mono (grown.trans grown')) value).andThen fun _ w _ => ?_
    exact (alike_change fun _ _ _ _ heaps => heaps.setField receiver name w).andThen fun _ _ _ => alike_done w
  | array elements =>
    refine (each_alike alike tracks elements).andThen fun _ vs _ => ?_
    exact (alike_make fun _ _ _ _ heaps => heaps.addArray vs.toArray).andThen fun _ r _ => alike_done (Value.array r)
  | element sequence index line =>
    refine (alike.expr tracks sequence).andThen fun _ s grown => ?_
    exact (alike.expr (tracks.mono grown) index).andThen fun _ i _ => readElement_alike s i line
  | setElement sequence index value line =>
    refine (alike.expr tracks sequence).andThen fun _ s grown => ?_
    refine (alike.expr (tracks.mono grown) index).andThen fun _ i grown' => ?_
    exact (alike.expr (tracks.mono (grown.trans grown')) value).andThen fun _ v _ => assignElement_alike s i v line

theorem textsOf_alike (alike : self.Alike ρ d other) (tracks : L.Tracks frame marks) (items : List Expr) :
    Run.Alike ρ d L Same (each (self.textOf frame) items)
      (each (other.textOf frame) (Expr.renameAll ρ d marks items)) := by
  rw [renameAll_eq_map]
  refine alike_each (fun e => (alike.expr tracks e).andThen fun _ v _ => ?_) items
  exact alike_look fun _ _ _ _ heaps => heaps.resembles.render v

theorem body_alike (alike : self.Alike ρ d other) (tracks : L.Tracks frame marks) {body body' : List Stmt}
    (renamed : Stmt.RenamedAll ρ d marks body body') :
    Run.Alike ρ d L Same (inOrder (self.stmt frame) body) (inOrder (other.stmt frame) body') := by
  induction body generalizing L body' with
  | nil =>
    cases renamed
    exact alike_done Flow.normal
  | cons s ss ih =>
    cases renamed with
    | cons first others =>
      refine (alike.stmt tracks first).andThen fun _ flow grown => ?_
      cases flow with
      | normal => exact ih (tracks.mono grown) others
      | _ => exact alike_done _

theorem execInitial_alike (alike : self.Alike ρ d other) (tracks : L.Tracks frame marks) {initial initial' : Stmt}
    (renamed : initial.Renamed ρ d marks initial') :
    Run.Alike ρ d L Same (self.execInitial frame (some initial)) (other.execInitial frame (some initial')) :=
  (alike.stmt tracks renamed).andThen fun _ _ _ => alike_done ()

theorem execRound_alike (alike : self.Alike ρ d other) (tracks : L.Tracks frame marks) {body body' : Stmt}
    (renamed : body.Renamed ρ d marks body') (step? : Option Expr) :
    Run.Alike ρ d L Same (self.execRound frame body step?)
      (other.execRound frame body' (step?.map (Expr.rename ρ d marks))) := by
  refine (alike.stmt tracks renamed).andThen fun _ flow grown => ?_
  have steps := exprOrNil_alike alike (tracks.mono grown) step?
  cases flow with
  | broke => exact alike_done _
  | returned value => exact alike_done _
  | normal => exact steps.andThen fun _ _ _ => alike_done _
  | continued => exact steps.andThen fun _ _ _ => alike_done _

/-- The rounds of a `for`, in the frame of the loop. -/
theorem forRounds_alike (alike : self.Alike ρ d other) (tracks : L.Tracks frame marks) (n : Nat)
    (test? step? : Option Expr) {body body' : Stmt} (renamed : body.Renamed ρ d marks body') :
    Run.Alike ρ d L Same (rounds n (self.testOrTrue frame test?) (self.execRound frame body step?))
      (rounds n (other.testOrTrue frame (test?.map (Expr.rename ρ d marks)))
        (other.execRound frame body' (step?.map (Expr.rename ρ d marks)))) :=
  alike_rounds (testOrTrue_alike alike tracks test?) (execRound_alike alike tracks renamed step?) n

theorem execStmt_alike (alike : self.Alike ρ d other) (tracks : L.Tracks frame marks) (n : Nat) {s s' : Stmt}
    (renamed : s.Renamed ρ d marks s') :
    Run.Alike ρ d L Same (self.execStmt d n frame s) (other.execStmt d n frame s') := by
  cases renamed with
  | expr value => exact (alike.expr tracks value).andThen fun _ _ _ => alike_done _
  | print items line =>
    refine (textsOf_alike alike tracks items).andThen fun _ texts _ => ?_
    exact (alike_printLine line _).andThen fun _ _ _ => alike_done _
  | varDecl name initial? line =>
    refine (exprOrNil_alike alike tracks initial?).andThen fun _ v grown => ?_
    obtain ⟨around?, found⟩ := tracks.slot
    refine (alike_change fun later h h' grown' heaps => ?_).andThen fun _ _ _ => alike_done _
    exact heaps.bind (Layout.slot?_mono (grown.trans grown') found) name v
  | block own body =>
    refine (alike_addFrame tracks own).bind fun _ inner _ _ related => ?_
    obtain ⟨rfl, inside⟩ := related
    exact body_alike alike inside body
  | ifThen test consequent =>
    refine (test_alike alike tracks test).andThen fun _ goesOn grown => ?_
    cases goesOn with
    | true => exact alike.stmt (tracks.mono grown) consequent
    | false => exact alike_done _
  | ifElse test consequent alternative =>
    refine (test_alike alike tracks test).andThen fun _ goesOn grown => ?_
    cases goesOn with
    | true => exact alike.stmt (tracks.mono grown) consequent
    | false => exact alike.stmt (tracks.mono grown) alternative
  | whileLoop test body => exact alike_rounds (test_alike alike tracks test) (alike.stmt tracks body) n
  | forLoop own test? step? body =>
    refine (alike_addFrame tracks own).bind fun _ inner _ _ related => ?_
    obtain ⟨rfl, inside⟩ := related
    exact (alike_done ()).andThen fun _ _ grown => forRounds_alike alike (inside.mono grown) n test? step? body
  | forFrom own test? step? initial body =>
    refine (alike_addFrame tracks own).bind fun _ inner _ _ related => ?_
    obtain ⟨rfl, inside⟩ := related
    exact (execInitial_alike alike inside initial).andThen fun _ _ grown =>
      forRounds_alike alike (inside.mono grown) n test? step? body
  | breakLoop => exact alike_done _
  | continueLoop => exact alike_done _
  | @funDecl _ decl decl' kept renamed =>
    refine (alike_make fun later h h' grown heaps => ?_).andThen fun _ r grown => ?_
    · exact heaps.addClosure ⟨⟨marks, tracks.mono grown, renamed⟩, rfl, rfl⟩
    · rw [renamed.name]
      exact (alike_bind (tracks.mono grown) kept _).andThen fun _ _ _ => alike_done _
  | returnValue value? line => exact (exprOrNil_alike alike tracks value?).andThen fun _ v _ => alike_done _
  | classDecl superclass? line kept renamed =>
    exact (declareClass_alike tracks kept superclass? renamed line).andThen fun _ _ _ => alike_done _

theorem invokeClosure_alike (alike : self.Alike ρ d other) :
    InvokesAlike ρ d self.invokeClosure other.invokeClosure := by
  intro L c c' same arguments
  obtain ⟨marks, tracks, renamed⟩ := same.decl
  obtain ⟨decl, scope, isInitializer⟩ := c
  obtain ⟨decl', scope', isInitializer'⟩ := c'
  obtain rfl := same.scope
  obtain rfl := same.isInitializer
  cases renamed with
  | decl own name params line body =>
  refine (alike_addFrame tracks own).bind fun more frame _ first related => ?_
  obtain ⟨rfl, inside⟩ := related
  refine (alike_change fun later h h' grown heaps => ?_).andThen fun more _ second => ?_
  · exact heaps.bindParams (inside.mono grown) params arguments
  refine (body_alike alike (inside.mono second) body).andThen fun more flow third => ?_
  dsimp only
  split
  · have outside := tracks.mono ((first.trans second).trans third)
    exact (alike_outward outside 0 ρ.name_this).andThen fun _ this? _ => alike_done _
  · cases flow <;> exact alike_done _

end Evaluator

section Runs

variable {ρ : Renaming} {d : Distances} {L : Layout}

theorem evaluator_alike (n : Nat) : (evaluator d n).Alike ρ d (evaluator d n) := by
  induction n with
  | zero => exact ⟨fun _ _ => alike_starve, fun _ _ => alike_starve, fun _ _ => alike_starve⟩
  | succ n ih =>
    exact ⟨fun tracks e => Evaluator.evalExpr_alike ih tracks e,
      fun tracks renamed => Evaluator.execStmt_alike ih tracks n renamed, Evaluator.invokeClosure_alike ih⟩

/-- A program with the variable renamed runs as the given one does. -/
theorem interpret_alike (tracks : L.Tracks Heap.globals []) (n : Nat) {program program' : List Stmt}
    (renamed : Stmt.RenamedAll ρ d [] program program') :
    Run.Alike ρ d L Same (interpret (evaluator d n) program) (interpret (evaluator d n) program') := by
  induction program generalizing L program' with
  | nil =>
    cases renamed
    exact alike_done ()
  | cons s rest ih =>
    cases renamed with
    | cons first others =>
      exact ((evaluator_alike n).stmt tracks first).andThen fun _ _ grown => ih (tracks.mono grown) others

end Runs

end Lox
