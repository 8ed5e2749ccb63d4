import Lox.Proofs.Machine.Framing
import Lox.Proofs.Machine.Jumps

/-!
Runs of a program with loops written out. On framed heaps such a run does what the run of the given program does,
step by step: it prints the same, leaves framed heaps and ends in the same way. As it goes deeper for the same
loop, it needs to be granted more depth, and one of the two runs may be short of it. So one side is named whose
shortage is let pass; then the other side must have been granted enough.
-/

namespace Lox

open Run

/-! ### Sides -/

/-- Of a program and the same one with loops written out, the one whose run may starve. -/
inductive Side
  | given
  | other

namespace Side

variable {side : Side} {n k : Nat}

/-- The depth to which the given program runs and that of the other one, so that only one side can fall short. From
the block around a `while` down to the step there are four statements and expressions within each other, where the
`for` goes down by one. -/
def Enough : Side → Nat → Nat → Prop
  | .given, n, k => 4 * n ≤ k
  | .other, n, k => k ≤ n

/-- The same for the rounds of a loop. -/
def Outlasts : Side → Nat → Nat → Prop
  | .given, n, k => n ≤ k
  | .other, n, k => k ≤ n

/-- One level down, where the other program may go down up to four. -/
theorem Enough.down {k' : Nat} (enough : side.Enough (n + 1) k') (deeper : k < k') (few : k' ≤ k + 4) :
    side.Enough n k := by
  cases side with
  | given =>
    change 4 * n ≤ k
    have given : 4 * (n + 1) ≤ k' := enough
    omega
  | other =>
    change k ≤ n
    have other : k' ≤ n + 1 := enough
    omega

theorem Enough.outlasts (enough : side.Enough n k) : side.Outlasts n k := by
  cases side with
  | given =>
    change n ≤ k
    have given : 4 * n ≤ k := enough
    omega
  | other => exact enough

/-- Where the given run goes on, only the other one can be out of depth so early. -/
theorem Enough.eq_other (enough : side.Enough (n + 1) k) (early : k ≤ 3) : side = .other := by
  cases side with
  | given =>
    have given : 4 * (n + 1) ≤ k := enough
    omega
  | other => rfl

end Side

/-! ### Ends framed -/

structure Machine.Framed (K : Bearings) (F : Framing) (m m' : Machine) : Prop where
  heap : m.heap.Framed K F m'.heap
  output : m'.output = m.output

/-- Two runs end framed: with machines that are, under a framing that has grown, and with values that are related
or both with the same fault. Or the side that may starve does. -/
inductive Run.EndsFramed (side : Side) (K : Bearings) (F : Framing) {α β : Type} (R : Framing → α → β → Prop) :
    EStateM.Result Stop Machine α → EStateM.Result Stop Machine β → Prop
  | ok {more : Framing} {a : α} {b : β} {m m' : Machine} : F <+: more → m.Framed K more m' → R more a b →
    EndsFramed side K F R (.ok a m) (.ok b m')
  | fault {more : Framing} (fault : Fault) {m m' : Machine} : F <+: more → m.Framed K more m' →
    EndsFramed side K F R (.error (.fault fault) m) (.error (.fault fault) m')
  | given (m : Machine) (e' : EStateM.Result Stop Machine β) : side = .given →
    EndsFramed side K F R (.error .starved m) e'
  | other (e : EStateM.Result Stop Machine α) (m' : Machine) : side = .other →
    EndsFramed side K F R e (.error .starved m')

/-- On framed machines, now or later, two runs end framed. -/
def Run.Framed (side : Side) (K : Bearings) (F : Framing) {α β : Type} (R : Framing → α → β → Prop) (x : Run α)
    (y : Run β) : Prop :=
  ∀ more m m', F <+: more → m.Framed K more m' → EndsFramed side K more R (x m) (y m')

/-- The same value, whatever the framing. -/
def Framing.Equal {α : Type} (_ : Framing) (a b : α) : Prop :=
  b = a

open Framing (Equal)

namespace Run

section Rules

variable {side : Side} {K : Bearings} {F F' : Framing} {α α' β β' : Type}
variable {R : Framing → α → α' → Prop} {S : Framing → β → β' → Prop}

theorem Framed.mono {x : Run α} {y : Run α'} (framed : Framed side K F R x y) (later : F <+: F') :
    Framed side K F' R x y :=
  fun more m m' grown => framed more m m' (later.trans grown)

theorem framed_pure {a : α} {b : α'} (related : ∀ more, F <+: more → R more a b) :
    Framed side K F R (pure a) (pure b) :=
  fun more _ _ grown machines => .ok (List.prefix_refl more) machines (related more grown)

theorem framed_done (a : α) : Framed side K F Equal (pure a) (pure a) :=
  framed_pure fun _ _ => rfl

theorem framed_fault (line : Nat) (error : RuntimeError) : Framed side K F R (fault line error) (fault line error) :=
  fun more _ _ _ machines => .fault _ (List.prefix_refl more) machines

theorem framed_starve_given (passes : side = .given) (y : Run α') : Framed side K F R starve y :=
  fun _ m _ _ _ => .given m _ passes

theorem framed_starve_other (passes : side = .other) (x : Run α) : Framed side K F R x (starve : Run α') :=
  fun _ _ m' _ _ => .other _ m' passes

theorem EndsFramed.since {e : EStateM.Result Stop Machine α} {e' : EStateM.Result Stop Machine α'}
    (ends : EndsFramed side K F' R e e') (later : F <+: F') : EndsFramed side K F R e e' := by
  cases ends with
  | ok further machines related => exact .ok (later.trans further) machines related
  | fault fault further machines => exact .fault fault (later.trans further) machines
  | given m e' passes => exact .given m e' passes
  | other e m' passes => exact .other e m' passes

theorem Framed.bind {x : Run α} {y : Run α'} {k : α → Run β} {l : α' → Run β'} (first : Framed side K F R x y)
    (second : ∀ more a b, F <+: more → R more a b → Framed side K more S (k a) (l b)) :
    Framed side K F S (x >>= k) (y >>= l) := by
  intro now m m' grown machines
  change EndsFramed side K now S (EStateM.bind x k m) (EStateM.bind y l m')
  unfold EStateM.bind
  have ends := first now m m' grown machines
  revert ends
  generalize x m = e
  generalize y m' = e'
  intro ends
  cases ends with
  | ok later between related =>
    exact (second _ _ _ (grown.trans later) related _ _ _ (List.prefix_refl _) between).since later
  | fault fault later machines => exact .fault fault later machines
  | given m e' passes => exact .given m _ passes
  | other e m' passes => exact .other _ m' passes

/-- A value that is the same goes on in both. -/
theorem Framed.andThen {x y : Run α} {k : α → Run β} {l : α → Run β'} (first : Framed side K F Equal x y)
    (second : ∀ more a, F <+: more → Framed side K more S (k a) (l a)) : Framed side K F S (x >>= k) (y >>= l) := by
  refine first.bind fun more a b grown same => ?_
  subst same
  exact second more _ grown

/-- What is known of each value of the given run is known of the value that both have. -/
theorem Framed.ending {x y : Run α} (framed : Framed side K F Equal x y) (ways : α → Prop)
    (ends : ∀ m a m₁, x m = .ok a m₁ → ways a) : Framed side K F (fun _ a b => b = a ∧ ways a) x y := by
  intro more m m' grown machines
  have both := framed more m m' grown machines
  have own := ends m
  revert both own
  generalize x m = e
  generalize y m' = e'
  intro both own
  cases both with
  | ok later between same => exact .ok later between ⟨same, own _ _ rfl⟩
  | fault fault later machines => exact .fault fault later machines
  | given m e' passes => exact .given m e' passes
  | other e m' passes => exact .other e m' passes

theorem framed_read {p : Heap → α} {q : Heap → α'}
    (related : ∀ more h h', F <+: more → h.Framed K more h' → R more (p h) (q h')) :
    Framed side K F R (read p) (read q) :=
  fun more m m' grown machines =>
    .ok (List.prefix_refl more) machines (related more m.heap m'.heap grown machines.heap)

theorem framed_look {p q : Heap → α} (same : ∀ more h h', F <+: more → h.Framed K more h' → q h' = p h) :
    Framed side K F Equal (read p) (read q) :=
  framed_read same

theorem framed_change {p q : Heap → Heap}
    (framed : ∀ more h h', F <+: more → h.Framed K more h' → (p h).Framed K more (q h')) :
    Framed side K F Equal (change p) (change q) :=
  fun more m m' grown machines =>
    .ok (List.prefix_refl more) ⟨framed more m.heap m'.heap grown machines.heap, machines.output⟩ rfl

/-- What is made gets the same reference. -/
theorem framed_make {p q : Heap → α × Heap} (framed : ∀ more h h', F <+: more → h.Framed K more h' →
    (q h').1 = (p h).1 ∧ (p h).2.Framed K more (q h').2) : Framed side K F Equal (make p) (make q) := by
  intro more m m' grown machines
  obtain ⟨same, heaps⟩ := framed more m.heap m'.heap grown machines.heap
  exact .ok (List.prefix_refl more) ⟨heaps, machines.output⟩ same

/-- Frames that are made within frames for the same scope are for the same scope. -/
theorem framed_addFrame {parent parent' : Ref .frame} {gaps : Gaps} (tracks : F.Tracks parent parent' gaps) :
    Framed side K F (fun more r r' => more.Tracks r r' (false :: gaps)) (make (·.addFrame parent))
      (make (·.addFrame parent')) := by
  intro more m m' grown machines
  obtain ⟨made', heaps⟩ := machines.heap.addFrame parent parent'
  refine .ok (List.prefix_append more _) ⟨heaps, machines.output⟩ ?_
  have inner := (tracks.mono grown).enter (m.heap.addFrame parent).1
  rwa [← made'] at inner

/-- A further frame that is made in the other run only. -/
theorem Framed.further {r r' : Ref .frame} {gaps : Gaps} {x : Run β} {l : Ref .frame → Run β'}
    (tracks : F.Tracks r r' (false :: gaps))
    (rest : ∀ (more : Framing) inner', F <+: more → more.Tracks r inner' (true :: gaps) →
      Framed side K more S x (l inner')) :
    Framed side K F S x (make (·.addFrame r') >>= l) := by
  intro more m m' grown machines
  obtain ⟨made', heaps⟩ := machines.heap.addFurther r'
  have inner := (tracks.mono grown).within
  rw [← made'] at inner
  have later : more <+: more ++ [.further r'] := List.prefix_append more _
  have ends := rest _ _ (grown.trans later) inner _ m { m' with heap := (m'.heap.addFrame r').2 }
    (List.prefix_refl _) ⟨heaps, machines.output⟩
  exact ends.since later

theorem framed_ofExcept (line : Nat) (a : Except RuntimeError α) :
    Framed side K F Equal (ofExcept line a) (ofExcept line a) := by
  cases a with
  | error error => exact framed_fault line error
  | ok a => exact framed_done a

theorem framed_ofOption (line : Nat) (error : RuntimeError) (a? : Option α) :
    Framed side K F Equal (ofOption line error a?) (ofOption line error a?) := by
  cases a? with
  | none => exact framed_fault line error
  | some a => exact framed_done a

/-- Related options have related values, or none. -/
theorem framed_ofRelated (line : Nat) (error : RuntimeError) {a? : Option α} {b? : Option α'}
    (related : Option.Rel (R F) a? b?) (mono : ∀ more a b, F <+: more → R F a b → R more a b) :
    Framed side K F R (ofOption line error a?) (ofOption line error b?) := by
  cases related with
  | none => exact framed_fault line error
  | some related => exact framed_pure fun more grown => mono more _ _ grown related

theorem framed_printLine (line : Nat) (text : String) :
    Framed side K F Equal (printLine line text) (printLine line text) := by
  intro more m m' grown machines
  unfold printLine
  rw [machines.output]
  dsimp only
  split
  · exact .ok (List.prefix_refl more) ⟨machines.heap, rfl⟩ rfl
  · exact .fault _ (List.prefix_refl more) ⟨machines.heap, rfl⟩

/-- Rounds with the same tests and bodies, of which the side that must not starve has as many as the other. -/
theorem framed_rounds {test test' : Run Bool} {body body' : Run Flow} (tests : Framed side K F Equal test test')
    (bodies : Framed side K F Equal body body') {n k : Nat} (outlasts : side.Outlasts n k) :
    Framed side K F Equal (rounds n test body) (rounds k test' body') := by
  induction n generalizing k with
  | zero =>
    cases side with
    | given => exact framed_starve_given rfl _
    | other =>
      obtain rfl : k = 0 := Nat.le_zero.mp outlasts
      exact framed_starve_other rfl _
  | succ n ih =>
    cases k with
    | zero =>
      cases side with
      | given => exact absurd outlasts (Nat.not_succ_le_zero n)
      | other => exact framed_starve_other rfl _
    | succ k =>
      have fewer : side.Outlasts n k := by
        cases side with
        | given => exact Nat.le_of_succ_le_succ outlasts
        | other => exact Nat.le_of_succ_le_succ outlasts
      refine tests.andThen fun _ goesOn grown => ?_
      cases goesOn with
      | false => exact framed_done _
      | true =>
        refine (bodies.mono grown).andThen fun _ flow grown' => ?_
        cases flow with
        | normal => exact (ih fewer).mono (grown.trans grown')
        | continued => exact (ih fewer).mono (grown.trans grown')
        | broke => exact framed_done _
        | returned value => exact framed_done _

end Rules

/-- One element in order is just run. -/
theorem inOrder_singleton {α : Type} (f : α → Run Flow) (a : α) : inOrder f [a] = f a := by
  funext m
  change EStateM.bind (f a) _ m = f a m
  unfold EStateM.bind
  cases f a m with
  | ok flow m' => cases flow <;> rfl
  | error stop m' => rfl

end Run

/-! ### Operations -/

section Operations

variable {side : Side} {K : Bearings} {F : Framing} {frame frame' : Ref .frame} {gaps : Gaps} {use use' : Use}

theorem readVariable_framed (tracks : F.Tracks frame frame' gaps) (moved : K.Moved gaps use use') :
    Run.Framed side K F Equal (readVariable K.distances frame use) (readVariable K.distances' frame' use') := by
  unfold readVariable
  rw [moved.1.2]
  refine (framed_look fun more h h' grown heaps => heaps.lookup? (tracks.mono grown) moved).andThen
    fun _ value? _ => ?_
  rw [moved.1.1]
  exact framed_ofOption _ _ value?

theorem framed_bind {r r' : Ref .frame} (shares : F.Shares r r') (name : String) (value : Value) :
    Run.Framed side K F Equal (change (·.bind r name value)) (change (·.bind r' name value)) :=
  framed_change fun _ _ _ grown heaps => heaps.bind (shares.mono grown) name value

theorem Heap.Framed.assigned? {h h' : Heap} (framed : h.Framed K F h') (tracks : F.Tracks frame frame' gaps)
    (moved : K.Moved gaps use use') : Option.Rel F.Shares
      ((h.target? K.distances frame use.id).filter fun r => (h.binding? r use.name).isSome)
      ((h'.target? K.distances' frame' use'.id).filter fun r => (h'.binding? r use'.name).isSome) := by
  have targets := framed.target? tracks moved
  revert targets
  generalize h.target? K.distances frame use.id = t?
  generalize h'.target? K.distances' frame' use'.id = t'?
  intro targets
  cases targets with
  | none => exact .none
  | some shares =>
    rw [Option.filter_some, Option.filter_some, moved.1.1, framed.binding? shares]
    split
    · exact .some shares
    · exact .none

theorem assignVariable_framed (tracks : F.Tracks frame frame' gaps) (moved : K.Moved gaps use use') (value : Value) :
    Run.Framed side K F Equal (assignVariable K.distances frame use value)
      (assignVariable K.distances' frame' use' value) := by
  refine (framed_read fun more h h' grown heaps => heaps.assigned? (tracks.mono grown) moved).bind
    fun more target? target?' _ targets => ?_
  rw [moved.1.1, moved.1.2]
  refine (framed_ofRelated _ _ targets fun later t t' grown shares => shares.mono grown).bind
    fun later target target' _ shares => ?_
  exact (framed_bind shares use.name value).andThen fun _ _ _ => framed_done value

theorem bindMethod_framed {method method' : Closure} (same : method.Framed K F [false] method')
    (receiver : Ref .instance) :
    Run.Framed side K F (fun more => Closure.Framed K more []) (bindMethod method receiver)
      (bindMethod method' receiver) := by
  obtain ⟨gaps, tracks, _, deepens⟩ := same.decl
  refine (framed_addFrame tracks).bind fun more frame frame' _ inside => ?_
  refine (framed_bind (inside.shared rfl) _ _).andThen fun later _ grown => framed_pure fun last further => ?_
  exact ⟨⟨false :: gaps, inside.mono (grown.trans further), rfl, deepens⟩, same.isInitializer⟩

theorem methodValue_framed {method method' : Closure} (same : method.Framed K F [false] method')
    (receiver : Ref .instance) :
    Run.Framed side K F Equal (methodValue method receiver) (methodValue method' receiver) := by
  refine (bindMethod_framed same receiver).bind fun more bound bound' _ bounds => ?_
  refine (framed_make fun later h h' grown heaps => ?_).andThen fun _ r _ => framed_done (Value.function r)
  exact heaps.addClosure (bounds.mono grown)

/-- A method that is found, for an instance. -/
theorem foundMethod_framed {method? method?' : Option Closure} (line : Nat) (error : RuntimeError)
    (related : Option.Rel (Closure.Framed K F [false]) method? method?') (receiver : Ref .instance) :
    Run.Framed side K F Equal (do methodValue (← ofOption line error method?) receiver)
      (do methodValue (← ofOption line error method?') receiver) :=
  (framed_ofRelated (R := fun F => Closure.Framed K F [false]) line error related
    fun _ _ _ grown same => same.mono grown).bind fun _ _ _ _ same => methodValue_framed same receiver

theorem readProperty_framed (receiver : Ref .instance) (name : String) (line : Nat) :
    Run.Framed side K F Equal (readProperty receiver name line) (readProperty receiver name line) := by
  refine (framed_look fun more h h' grown heaps => by rw [heaps.resembles.instance?]).andThen fun more value? _ => ?_
  cases value? with
  | some value => exact framed_done value
  | none =>
    refine (framed_read (R := fun F => Option.Rel (Closure.Framed K F [false])) fun later h h' grown heaps => ?_).bind
      fun later method? method?' _ related => foundMethod_framed line (.undefinedProperty name) related receiver
    rw [heaps.resembles.instance?]
    cases h.instance? receiver with
    | none => exact .none
    | some made => exact heaps.method? made.classRef name

/-- A word of the language is bound to the same so far out. -/
theorem framed_outward (tracks : F.Tracks frame frame' gaps) (distance : Nat) (name : String) :
    Run.Framed side K F Equal (read fun h => (h.ancestor? frame distance).bind (h.binding? · name))
      (read fun h => (h.ancestor? frame' (gaps.out distance)).bind (h.binding? · name)) :=
  framed_look fun _ _ _ grown heaps => heaps.outward (tracks.mono grown) distance name

theorem readSuper_framed (tracks : F.Tracks frame frame' gaps) {id id' line : Nat}
    (moved : K.Moved gaps ⟨id, superName, line⟩ ⟨id', superName, line⟩) (name : String) :
    Run.Framed side K F Equal (readSuper K.distances frame id name line)
      (readSuper K.distances' frame' id' name line) := by
  have distance : K.distances'.get? id' = (K.distances.get? id).map gaps.out := moved.distance
  have within := moved.super rfl
  unfold readSuper
  rw [distance]
  cases found : K.distances.get? id with
  | none => exact framed_fault line _
  | some n =>
    have none : gaps.getD n false = false := within n found
    cases n with
    | zero =>
      have here : gaps.out 0 = 0 := Gaps.out_zero (by cases gaps <;> exact none)
      rw [Option.map_some, here]
      exact framed_fault line _
    | succ n =>
      -- Between the frames of `super` and `this` there is no further one.
      rw [Option.map_some, Gaps.out_succ none]
      have outer : Run.Framed side K F Equal _ _ := framed_outward tracks (n + 1) superName
      rw [Gaps.out_succ none] at outer
      refine outer.andThen fun more value? grown => ?_
      split
      · next superclass =>
        refine (framed_outward (tracks.mono grown) n thisName).andThen fun more value? grown => ?_
        split
        · next receiver =>
          exact (framed_read (R := fun F => Option.Rel (Closure.Framed K F [false]))
            fun later h h' grown heaps => heaps.method? superclass name).bind
            fun later method? method?' _ related => foundMethod_framed line (.undefinedProperty name) related receiver
        · exact framed_fault line _
      · exact framed_fault line _

theorem locate_framed (sequence index : Value) (line : Nat) :
    Run.Framed side K F Equal (locate sequence index line) (locate sequence index line) := by
  refine (framed_ofOption line _ _).andThen fun more array _ => ?_
  refine (framed_look fun later h h' grown heaps => by rw [heaps.resembles.elements]).andThen fun more length _ => ?_
  exact (framed_ofExcept line _).andThen fun _ place _ => framed_done (array, place)

theorem readElement_framed (sequence index : Value) (line : Nat) :
    Run.Framed side K F Equal (readElement sequence index line) (readElement sequence index line) :=
  (locate_framed sequence index line).andThen fun _ _ _ =>
    framed_look fun _ _ _ _ heaps => by rw [heaps.resembles.elements]

theorem assignElement_framed (sequence index value : Value) (line : Nat) :
    Run.Framed side K F Equal (assignElement sequence index value line) (assignElement sequence index value line) :=
  (locate_framed sequence index line).andThen fun _ place _ =>
    (framed_change fun _ _ _ _ heaps => heaps.setElement place.1 place.2 value).andThen fun _ _ _ => framed_done value

theorem native_framed (native : Native) (arguments : List Value) (line : Nat) :
    Run.Framed side K F Equal (native.run arguments line) (native.run arguments line) := by
  unfold Native.run
  split
  · next r rest =>
    refine (framed_look fun _ h h' _ heaps => ?_).andThen fun _ length _ => framed_done _
    rw [heaps.resembles.elements]
  · next r value rest =>
    refine (framed_change fun _ h h' _ heaps => heaps.pushElement r value).andThen fun _ _ _ => ?_
    refine (framed_look fun _ h h' _ heaps => ?_).andThen fun _ length _ => framed_done _
    rw [heaps.resembles.elements]
  · exact framed_fault line _

theorem checkArity_framed (expected found line : Nat) :
    Run.Framed side K F Equal (checkArity expected found line) (checkArity expected found line) := by
  unfold checkArity
  split
  · exact framed_done ()
  · exact framed_fault line _

/-- What calls functions that are the same but for loops written out does the same with them. -/
def Run.InvokesFramed (side : Side) (K : Bearings) (invoke invoke' : Closure → List Value → Run Value) : Prop :=
  ∀ {F : Framing} {c c' : Closure}, c.Framed K F [] c' → ∀ arguments,
    Run.Framed side K F Equal (invoke c arguments) (invoke' c' arguments)

theorem call_framed {invoke invoke' : Closure → List Value → Run Value} (framed : InvokesFramed side K invoke invoke')
    (callee : Value) (arguments : List Value) (line : Nat) :
    Run.Framed side K F Equal (call invoke callee arguments line) (call invoke' callee arguments line) := by
  unfold call
  split
  · next r =>
    refine (framed_read (R := fun F => Option.Rel (Closure.Framed K F []))
      fun more h h' grown heaps => heaps.closures r).bind fun more closure? closure?' _ related => ?_
    refine (framed_ofRelated (R := fun F => Closure.Framed K F []) line .notCallable related
      fun _ _ _ grown same => same.mono grown).bind fun more closure closure' _ same => ?_
    rw [same.arity]
    exact (checkArity_framed _ _ _).andThen fun later _ grown => framed (same.mono grown) arguments
  · next native => exact (checkArity_framed _ _ _).andThen fun _ _ _ => native_framed native arguments line
  · next r =>
    refine (framed_read (R := fun F => Option.Rel (Closure.Framed K F [false]))
      fun more h h' grown heaps => heaps.method? r initName).bind fun more method? method?' _ related => ?_
    have adds {F : Framing} : Run.Framed side K F Equal (make (·.addInstance r)) (make (·.addInstance r)) :=
      framed_make fun _ _ _ _ heaps => heaps.addInstance r
    cases related with
    | none => exact (checkArity_framed _ _ _).andThen fun _ _ _ => adds.andThen fun _ receiver _ => framed_done _
    | @some initializer initializer' same =>
      dsimp only
      rw [same.arity]
      refine (checkArity_framed _ _ _).andThen fun _ _ grown => adds.andThen fun _ receiver grown' => ?_
      exact (bindMethod_framed (same.mono (grown.trans grown')) receiver).bind fun _ bound bound' _ bounds =>
        (framed bounds arguments).andThen fun _ _ _ => framed_done _
  · exact framed_fault line _

/-! ### Classes -/

theorem methodTable_framed {scope scope' : Ref .frame} {methods methods' : List FunctionDecl}
    (tracks : F.Tracks scope scope' gaps) (innermost : gaps.headD false = false)
    (deepens : FunctionDecl.DeepensAll K.Moved (false :: gaps) methods methods') (name : String) :
    Option.Rel (Closure.Framed K F [false]) ((methodTable scope methods).get? name)
      ((methodTable scope' methods').get? name) := by
  have onto {t t' : Table String Closure}
      (related : ∀ name, Option.Rel (Closure.Framed K F [false]) (t.get? name) (t'.get? name)) :
      Option.Rel (Closure.Framed K F [false])
        ((methods.foldl (fun t m => t.put m.name ⟨m, scope, m.name = initName⟩) t).get? name)
        ((methods'.foldl (fun t m => t.put m.name ⟨m, scope', m.name = initName⟩) t').get? name) := by
    induction methods generalizing methods' t t' with
    | nil =>
      cases deepens
      exact related name
    | cons method methods ih =>
      cases deepens with
      | cons first others =>
        refine ih others fun name => ?_
        dsimp only
        rw [first.name, Table.get?_put, Table.get?_put]
        split
        · exact .some ⟨⟨gaps, tracks, innermost, first⟩, rfl⟩
        · exact related name
  exact onto fun _ => .none

theorem readSuperclass_framed (tracks : F.Tracks frame frame' gaps) (line : Nat) {superclass? superclass'? : Option Use}
    (moved : Option.Rel (K.Moved gaps) superclass? superclass'?) :
    Run.Framed side K F (fun _ r? r?' => r?' = r? ∧ r?.isSome = superclass?.isSome)
      (readSuperclass K.distances frame line superclass?) (readSuperclass K.distances' frame' line superclass'?) := by
  cases moved with
  | none => exact framed_pure fun _ _ => ⟨rfl, rfl⟩
  | some moved =>
    refine (readVariable_framed tracks moved).andThen fun _ value _ => ?_
    cases value with
    | classObject r => exact framed_pure fun _ _ => ⟨rfl, rfl⟩
    | _ => exact framed_fault line _

/-- The frame in which the methods of a class are declared. -/
theorem methodScope_framed (tracks : F.Tracks frame frame' gaps) (superclass? : Option Use)
    {r? : Option (Ref .classObject)} (given : r?.isSome = superclass?.isSome) :
    Run.Framed side K F (fun more scope scope' => more.Tracks scope scope' (gaps.ofMethods superclass?))
      (methodScope frame r?) (methodScope frame' r?) := by
  cases r? with
  | none =>
    obtain rfl : superclass? = none := by simpa using given.symm
    exact framed_pure fun more grown => tracks.mono grown
  | some superclass =>
    obtain ⟨use, rfl⟩ : ∃ use, superclass? = some use := Option.isSome_iff_exists.mp given.symm
    refine (framed_addFrame tracks).bind fun more scope scope' _ inside => ?_
    exact (framed_bind (inside.shared rfl) _ _).andThen fun later _ grown => framed_pure fun last further =>
      inside.mono (grown.trans further)

theorem declareClass_framed (tracks : F.Tracks frame frame' gaps) (innermost : gaps.headD false = false)
    (name : String) (line : Nat) {superclass? superclass'? : Option Use} {methods methods' : List FunctionDecl}
    (moved : Option.Rel (K.Moved gaps) superclass? superclass'?)
    (deepens : FunctionDecl.DeepensAll K.Moved (false :: gaps.ofMethods superclass?) methods methods') :
    Run.Framed side K F Equal (declareClass K.distances frame name superclass? methods line)
      (declareClass K.distances' frame' name superclass'? methods' line) := by
  have here : F.Shares frame frame' := tracks.shared innermost
  refine (readSuperclass_framed tracks line moved).bind fun more r? _ first related => ?_
  obtain ⟨rfl, given⟩ := related
  refine (framed_bind (here.mono first) name .nil).andThen fun more _ second => ?_
  refine (methodScope_framed (tracks.mono (first.trans second)) superclass? given).bind
    fun more scope scope' third inside => ?_
  have outermost : (gaps.ofMethods superclass?).headD false = false := by
    cases superclass? with
    | none => exact innermost
    | some use => rfl
  refine (framed_make fun later h h' grown heaps => ?_).andThen fun later made fourth =>
    framed_bind (here.mono (((first.trans second).trans third).trans fourth)) name _
  exact heaps.addClass ⟨rfl, rfl, methodTable_framed (inside.mono grown) outermost deepens⟩

end Operations

/-! ### Ways to end -/

section Ends

variable {self : Evaluator} {distances : Distances} {n : Nat} {frame : Ref .frame} {m m' : Machine} {flow : Flow}

/-- The first clause of a `for` ends normally. -/
theorem Stmt.Initial.endsBy {s : Stmt} (initial : s.Initial) : s.EndsBy (· = .normal) := by
  intro distances n frame m flow m' done
  cases n with
  | zero => cases done
  | succ n =>
    have ran : (evaluator distances n).execStmt distances n frame s m = .ok flow m' := done
    cases s with
    | expr value =>
      obtain ⟨_, _, -, done⟩ := bind_ok ran
      exact (pure_ok done).1
    | varDecl name initial? line =>
      obtain ⟨_, _, -, done⟩ := bind_ok ran
      obtain ⟨_, _, -, done⟩ := bind_ok done
      exact (pure_ok done).1
    | _ => exact initial.elim

theorem Stmt.continuesAny_mem {ss : List Stmt} (none : Stmt.continuesAny ss = false) {s : Stmt} (member : s ∈ ss) :
    s.continues = false := by
  induction ss with
  | nil => cases member
  | cons first ss ih =>
    rw [Stmt.continuesAny, Bool.or_eq_false_iff] at none
    rcases List.mem_cons.mp member with rfl | member
    · exact none.1
    · exact ih none.2 member

/-- A statement without a `continue` of a loop around it does not go on with the next round of one. -/
theorem stmt_not_continued {s : Stmt} (own : s.continues = false)
    (done : (evaluator distances n).stmt frame s m = .ok flow m') : flow ≠ .continued := by
  induction n generalizing frame s m flow m' with
  | zero => cases done
  | succ n ih =>
    have ran : (evaluator distances n).execStmt distances n frame s m = .ok flow m' := done
    have normal (same : flow = .normal) : flow ≠ .continued := by
      rw [same]
      exact Flow.noConfusion
    cases s with
    | block body =>
      obtain ⟨inner, _, -, done⟩ := bind_ok ran
      rcases inOrder_ok done with same | ⟨s, member, m₁, m₂, ran⟩
      · exact normal same
      · exact ih (Stmt.continuesAny_mem own member) ran
    | ifElse test consequent alternative? =>
      obtain ⟨holds, m₁, -, done⟩ := bind_ok ran
      cases alternative? with
      | none =>
        have inside : consequent.continues = false := own
        cases holds with
        | true => exact ih inside done
        | false => exact normal (pure_ok done).1
      | some alternative =>
        obtain ⟨first, second⟩ := Bool.or_eq_false_iff.mp own
        cases holds with
        | true => exact ih first done
        | false => exact ih second done
    | whileLoop test body => exact (while_endsBy test body _ _ _ _ _ _ done).2
    | forLoop initial? test? step? body => exact (for_endsBy initial? test? step? body _ _ _ _ _ _ done).2
    | continueLoop => cases own
    | breakLoop =>
      rw [(pure_ok ran).1]
      exact Flow.noConfusion
    | returnValue value? line =>
      obtain ⟨_, _, -, done⟩ := bind_ok ran
      rw [(pure_ok done).1]
      exact Flow.noConfusion
    | expr value =>
      obtain ⟨_, _, -, done⟩ := bind_ok ran
      exact normal (pure_ok done).1
    | classDecl name superclass? methods line =>
      obtain ⟨_, _, -, done⟩ := bind_ok ran
      exact normal (pure_ok done).1
    | print items line =>
      obtain ⟨_, _, -, done⟩ := bind_ok ran
      obtain ⟨_, _, -, done⟩ := bind_ok done
      exact normal (pure_ok done).1
    | varDecl name initial? line =>
      obtain ⟨_, _, -, done⟩ := bind_ok ran
      obtain ⟨_, _, -, done⟩ := bind_ok done
      exact normal (pure_ok done).1
    | funDecl decl =>
      obtain ⟨_, _, -, done⟩ := bind_ok ran
      obtain ⟨_, _, -, done⟩ := bind_ok done
      exact normal (pure_ok done).1

end Ends

/-! ### Expressions and statements -/

/-- An evaluator does with loops written out what another one does with the given program. -/
structure Evaluator.Framed (side : Side) (K : Bearings) (given other : Evaluator) : Prop where
  expr : ∀ {F : Framing} {frame frame' : Ref .frame} {gaps : Gaps} {e e' : Expr}, F.Tracks frame frame' gaps →
    e.Alike (K.Moved gaps) e' → Run.Framed side K F Equal (given.expr frame e) (other.expr frame' e')
  stmt : ∀ {F : Framing} {frame frame' : Ref .frame} {gaps : Gaps} {s s' : Stmt}, F.Tracks frame frame' gaps →
    s.Deepens K.Moved gaps s' → Run.Framed side K F Equal (given.stmt frame s) (other.stmt frame' s')
  invoke : InvokesFramed side K given.invoke other.invoke

namespace Evaluator

variable {side : Side} {K : Bearings} {F : Framing} {frame frame' : Ref .frame} {gaps : Gaps} {self other : Evaluator}

theorem test_framed (framed : self.Framed side K other) (tracks : F.Tracks frame frame' gaps) {e e' : Expr}
    (alike : e.Alike (K.Moved gaps) e') : Run.Framed side K F Equal (self.test frame e) (other.test frame' e') :=
  (framed.expr tracks alike).andThen fun _ v _ => framed_done v.truthy

theorem exprOrNil_framed (framed : self.Framed side K other) (tracks : F.Tracks frame frame' gaps)
    {e? e'? : Option Expr} (alike : Expr.AlikeOpt (K.Moved gaps) e? e'?) :
    Run.Framed side K F Equal (self.exprOrNil frame e?) (other.exprOrNil frame' e'?) := by
  cases alike with
  | none => exact framed_done Value.nil
  | some alike => exact framed.expr tracks alike

theorem testOrTrue_framed (framed : self.Framed side K other) (tracks : F.Tracks frame frame' gaps)
    {e? e'? : Option Expr} (alike : Expr.AlikeOpt (K.Moved gaps) e? e'?) :
    Run.Framed side K F Equal (self.testOrTrue frame e?) (other.testOrTrue frame' e'?) := by
  cases alike with
  | none => exact framed_done true
  | some alike => exact test_framed framed tracks alike

theorem each_framed (framed : self.Framed side K other) (tracks : F.Tracks frame frame' gaps) {es es' : List Expr}
    (alike : Expr.AlikeAll (K.Moved gaps) es es') :
    Run.Framed side K F Equal (each (self.expr frame) es) (each (other.expr frame') es') := by
  induction es generalizing F es' with
  | nil =>
    cases alike
    exact framed_done []
  | cons e es ih =>
    cases alike with
    | cons first others =>
      exact (framed.expr tracks first).andThen fun _ v grown => (ih (tracks.mono grown) others).andThen fun _ vs _ =>
        framed_done (v :: vs)

theorem textsOf_framed (framed : self.Framed side K other) (tracks : F.Tracks frame frame' gaps) {es es' : List Expr}
    (alike : Expr.AlikeAll (K.Moved gaps) es es') :
    Run.Framed side K F Equal (each (self.textOf frame) es) (each (other.textOf frame') es') := by
  induction es generalizing F es' with
  | nil =>
    cases alike
    exact framed_done []
  | cons e es ih =>
    cases alike with
    | @cons _ e' _ _ first others =>
      have text : Run.Framed side K F Equal (self.textOf frame e) (other.textOf frame' e') :=
        (framed.expr tracks first).andThen fun _ v _ => framed_look fun _ _ _ _ heaps => heaps.resembles.render v
      exact text.andThen fun _ text grown => (ih (tracks.mono grown) others).andThen fun _ texts _ =>
        framed_done (text :: texts)

theorem evalExpr_framed (framed : self.Framed side K other) (tracks : F.Tracks frame frame' gaps) {e e' : Expr}
    (alike : e.Alike (K.Moved gaps) e') :
    Run.Framed side K F Equal (self.evalExpr K.distances frame e) (other.evalExpr K.distances' frame' e') := by
  cases alike with
  | literal value => exact framed_done value.toValue
  | group inner => exact framed.expr tracks inner
  | unary op line operand => exact (framed.expr tracks operand).andThen fun _ v _ => framed_ofExcept line (op.apply v)
  | binary op line left right =>
    refine (framed.expr tracks left).andThen fun _ l grown => ?_
    split
    · exact framed_done l
    · exact (framed.expr (tracks.mono grown) right).andThen fun _ r _ => framed_ofExcept line (op.apply l r)
  | conditional test consequent alternative =>
    refine (test_framed framed tracks test).andThen fun _ goesOn grown => ?_
    cases goesOn with
    | true => exact framed.expr (tracks.mono grown) consequent
    | false => exact framed.expr (tracks.mono grown) alternative
  | var moved => exact readVariable_framed tracks moved
  | assign moved value =>
    exact (framed.expr tracks value).andThen fun _ v grown => assignVariable_framed (tracks.mono grown) moved v
  | thisRef line moved => exact readVariable_framed tracks moved
  | superRef method line moved => exact readSuper_framed tracks moved method
  | call line callee arguments =>
    refine (framed.expr tracks callee).andThen fun _ f grown => ?_
    exact (each_framed framed (tracks.mono grown) arguments).andThen fun _ vs _ => call_framed framed.invoke f vs line
  | field name line object =>
    refine (framed.expr tracks object).andThen fun _ v _ => ?_
    exact (framed_ofOption line _ _).andThen fun _ receiver _ => readProperty_framed receiver name line
  | setField name line object value =>
    refine (framed.expr tracks object).andThen fun _ v grown => ?_
    refine (framed_ofOption line _ _).andThen fun _ receiver grown' => ?_
    refine (framed.expr (tracks.mono (grown.trans grown')) value).andThen fun _ w _ => ?_
    exact (framed_change fun _ _ _ _ heaps => heaps.setField receiver name w).andThen fun _ _ _ => framed_done w
  | array elements =>
    refine (each_framed framed tracks elements).andThen fun _ vs _ => ?_
    exact (framed_make fun _ _ _ _ heaps => heaps.addArray vs.toArray).andThen fun _ r _ => framed_done (Value.array r)
  | element line sequence index =>
    refine (framed.expr tracks sequence).andThen fun _ s grown => ?_
    exact (framed.expr (tracks.mono grown) index).andThen fun _ i _ => readElement_framed s i line
  | setElement line sequence index value =>
    refine (framed.expr tracks sequence).andThen fun _ s grown => ?_
    refine (framed.expr (tracks.mono grown) index).andThen fun _ i grown' => ?_
    exact (framed.expr (tracks.mono (grown.trans grown')) value).andThen fun _ v _ => assignElement_framed s i v line

theorem body_framed (framed : self.Framed side K other) (tracks : F.Tracks frame frame' gaps) {body body' : List Stmt}
    (deepens : Stmt.DeepensAll K.Moved gaps body body') :
    Run.Framed side K F Equal (inOrder (self.stmt frame) body) (inOrder (other.stmt frame') body') := by
  induction body generalizing F body' with
  | nil =>
    cases deepens
    exact framed_done Flow.normal
  | cons s ss ih =>
    cases deepens with
    | cons first others =>
      refine (framed.stmt tracks first).andThen fun _ flow grown => ?_
      cases flow with
      | normal => exact ih (tracks.mono grown) others
      | _ => exact framed_done _

theorem execRound_framed (framed : self.Framed side K other) (tracks : F.Tracks frame frame' gaps) {body body' : Stmt}
    (deepens : body.Deepens K.Moved gaps body') {step? step'? : Option Expr}
    (alike : Expr.AlikeOpt (K.Moved gaps) step? step'?) :
    Run.Framed side K F Equal (self.execRound frame body step?) (other.execRound frame' body' step'?) := by
  refine (framed.stmt tracks deepens).andThen fun _ flow grown => ?_
  have steps := exprOrNil_framed framed (tracks.mono grown) alike
  cases flow with
  | broke => exact framed_done _
  | returned value => exact framed_done _
  | normal => exact steps.andThen fun _ _ _ => framed_done _
  | continued => exact steps.andThen fun _ _ _ => framed_done _

/-- The rounds of a `for`, in the frames of the loop. -/
theorem forRounds_framed (framed : self.Framed side K other) (tracks : F.Tracks frame frame' gaps) {n k : Nat}
    (outlasts : side.Outlasts n k) {test? test'? step? step'? : Option Expr} {body body' : Stmt}
    (test : Expr.AlikeOpt (K.Moved gaps) test? test'?) (step : Expr.AlikeOpt (K.Moved gaps) step? step'?)
    (deepens : body.Deepens K.Moved gaps body') :
    Run.Framed side K F Equal (rounds n (self.testOrTrue frame test?) (self.execRound frame body step?))
      (rounds k (other.testOrTrue frame' test'?) (other.execRound frame' body' step'?)) :=
  framed_rounds (testOrTrue_framed framed tracks test) (execRound_framed framed tracks deepens step) outlasts

theorem invokeClosure_framed (framed : self.Framed side K other) :
    InvokesFramed side K self.invokeClosure other.invokeClosure := by
  intro F c c' same arguments
  obtain ⟨gaps, tracks, innermost, deepens⟩ := same.decl
  obtain ⟨decl, scope, isInitializer⟩ := c
  obtain ⟨decl', scope', isInitializer'⟩ := c'
  obtain rfl : isInitializer' = isInitializer := same.isInitializer
  cases deepens with
  | decl name params line body =>
    refine (framed_addFrame tracks).bind fun more frame frame' first inside => ?_
    have here : Framing.Shares more frame frame' := inside.shared rfl
    refine (framed_change fun later h h' grown heaps => heaps.bindParams (here.mono grown) params arguments).andThen
      fun more _ second => ?_
    refine (body_framed framed (inside.mono second) body).andThen fun more flow third => ?_
    dsimp only
    split
    · have outside : Framing.Shares more scope scope' :=
        (tracks.shared innermost).mono ((first.trans second).trans third)
      exact (framed_look fun _ _ _ grown heaps => heaps.binding? (outside.mono grown) thisName).andThen
        fun _ this? _ => framed_done _
    · cases flow <;> exact framed_done _

end Evaluator

/-! ### Loops written out -/

section Loops

variable {side : Side} {K : Bearings} {F : Framing} {frame frame' : Ref .frame} {gaps : Gaps} {n k : Nat}

/-- To all depths that are enough for the parts, evaluators do the same. -/
def Evaluator.FramedFor (side : Side) (K : Bearings) (n : Nat) : Prop :=
  ∀ k, side.Enough n k → (evaluator K.distances n).Framed side K (evaluator K.distances' k)

variable (framed : Evaluator.FramedFor side K n)
include framed

/-- A test that is missing is written out as `true`. -/
theorem whileTest_framed (enough : side.Enough (n + 1) (k + 2)) (tracks : F.Tracks frame frame' gaps)
    {test? test'? : Option Expr} (alike : Expr.AlikeOpt (K.Moved gaps) test? test'?) :
    Run.Framed side K F Equal ((evaluator K.distances n).testOrTrue frame test?)
      ((evaluator K.distances' k).test frame' (test'?.getD (.literal (.bool true)))) := by
  cases alike with
  | some alike => exact Evaluator.test_framed (framed k (enough.down (by omega) (by omega))) tracks alike
  | none =>
    cases k with
    | zero => exact (framed_starve_other (enough.eq_other (by decide)) _ :)
    | succ k => exact framed_done true

/-- The step of a loop, as a statement at the end of its round. -/
theorem whileStep_framed (enough : side.Enough (n + 1) (k + 3)) (tracks : F.Tracks frame frame' gaps)
    {step? step'? : Option Expr} (alike : Expr.AlikeOpt (K.Moved gaps) step? step'?) :
    Run.Framed side K F Equal (do let _ ← (evaluator K.distances n).exprOrNil frame step?; return Flow.normal)
      (inOrder ((evaluator K.distances' k).stmt frame') (step'?.toList.map .expr)) := by
  cases alike with
  | none => exact framed_done Flow.normal
  | @some step step' alike =>
    change Run.Framed side K F Equal _ (inOrder ((evaluator K.distances' k).stmt frame') [.expr step'])
    rw [inOrder_singleton]
    cases k with
    | zero => exact framed_starve_other (enough.eq_other (by decide)) _
    | succ k =>
      exact ((framed k (enough.down (by omega) (by omega))).expr tracks alike).andThen fun _ _ _ => framed_done _

/-- A round of a loop, with its body in a further frame. -/
theorem whileRound_framed (enough : side.Enough (n + 1) (k + 2)) (tracks : F.Tracks frame frame' (false :: gaps))
    {step? step'? : Option Expr} (alike : Expr.AlikeOpt (K.Moved (true :: gaps)) step? step'?) {body body' : Stmt}
    (deepens : body.Deepens K.Moved (true :: gaps) body') (own : body.continues = false) :
    Run.Framed side K F Equal ((evaluator K.distances n).execRound frame body step?)
      ((evaluator K.distances' k).stmt frame' (.roundForm step'? body')) := by
  cases k with
  | zero => exact framed_starve_other (enough.eq_other (by decide)) _
  | succ k =>
    refine Framed.further tracks fun more inner' grown inside => ?_
    have bodies := ((framed k (enough.down (by omega) (by omega))).stmt inside deepens).ending
      (· ≠ .continued) fun m flow m₁ done => stmt_not_continued own done
    refine bodies.bind fun later flow flow' grown' related => ?_
    obtain ⟨rfl, goesOn⟩ := related
    cases flow' with
    | broke => exact framed_done _
    | returned value => exact framed_done _
    | continued => exact absurd rfl goesOn
    | normal => exact whileStep_framed framed enough (inside.mono grown') alike

/-- A loop behind its first clause, and the `while` in its place. -/
theorem whileLoop_framed (enough : side.Enough (n + 1) (k + 1)) (tracks : F.Tracks frame frame' (false :: gaps))
    {test? test'? step? step'? : Option Expr} (test : Expr.AlikeOpt (K.Moved (false :: gaps)) test? test'?)
    (step : Expr.AlikeOpt (K.Moved (true :: gaps)) step? step'?) {body body' : Stmt}
    (deepens : body.Deepens K.Moved (true :: gaps) body') (own : body.continues = false) :
    Run.Framed side K F Equal
      (rounds n ((evaluator K.distances n).testOrTrue frame test?)
        ((evaluator K.distances n).execRound frame body step?))
      ((evaluator K.distances' k).stmt frame'
        (.whileLoop (test'?.getD (.literal (.bool true))) (.roundForm step'? body'))) := by
  cases k with
  | zero => exact framed_starve_other (enough.eq_other (by decide)) _
  | succ k =>
    exact framed_rounds (whileTest_framed framed enough tracks test)
      (whileRound_framed framed enough tracks step deepens own) (enough.down (by omega) (by omega)).outlasts

/-- A `for` without a first clause, and the block with a `while` in its place. -/
theorem whileForm_framed (enough : side.Enough (n + 1) (k + 1)) (tracks : F.Tracks frame frame' gaps)
    {test? test'? step? step'? : Option Expr} (test : Expr.AlikeOpt (K.Moved (false :: gaps)) test? test'?)
    (step : Expr.AlikeOpt (K.Moved (true :: gaps)) step? step'?) {body body' : Stmt}
    (deepens : body.Deepens K.Moved (true :: gaps) body') (own : body.continues = false) :
    Run.Framed side K F Equal ((evaluator K.distances n).execStmt K.distances n frame (.forLoop none test? step? body))
      ((evaluator K.distances' k).execStmt K.distances' k frame' (.whileForm none test'? step'? body')) := by
  refine (framed_addFrame tracks).bind fun more inner inner' _ inside => ?_
  dsimp only [Option.toList_none, List.nil_append]
  rw [inOrder_singleton]
  exact (whileLoop_framed framed enough inside test step deepens own :)

/-- The same with a first clause, which ends normally. -/
theorem whileFrom_framed (enough : side.Enough (n + 1) (k + 1)) (tracks : F.Tracks frame frame' gaps)
    {initial initial' : Stmt} (starts : initial.Initial) (initials : initial.Deepens K.Moved (false :: gaps) initial')
    {test? test'? step? step'? : Option Expr} (test : Expr.AlikeOpt (K.Moved (false :: gaps)) test? test'?)
    (step : Expr.AlikeOpt (K.Moved (true :: gaps)) step? step'?) {body body' : Stmt}
    (deepens : body.Deepens K.Moved (true :: gaps) body') (own : body.continues = false) :
    Run.Framed side K F Equal
      ((evaluator K.distances n).execStmt K.distances n frame (.forLoop (some initial) test? step? body))
      ((evaluator K.distances' k).execStmt K.distances' k frame' (.whileForm (some initial') test'? step'? body')) := by
  refine (framed_addFrame tracks).bind fun more inner inner' _ inside => ?_
  have first := ((framed k (enough.down (by omega) (by omega))).stmt inside initials).ending
    (· = .normal) fun m flow m₁ done => starts.endsBy _ _ _ _ _ _ done
  have clause : Run.Framed side K more (fun _ (_ : Unit) flow => flow = .normal)
      ((evaluator K.distances n).execInitial inner (some initial))
      ((evaluator K.distances' k).stmt inner' initial') := by
    rw [← bind_pure ((evaluator K.distances' k).stmt inner' initial')]
    refine first.bind fun _ flow _ _ related => framed_pure fun _ _ => ?_
    rw [related.1, related.2]
  refine clause.bind fun later _ flow grown normal => ?_
  rw [normal]
  dsimp only [Option.toList_some]
  change Run.Framed side K later Equal _ (inOrder ((evaluator K.distances' k).stmt inner') [_])
  rw [inOrder_singleton]
  exact whileLoop_framed framed enough (inside.mono grown) test step deepens own

/-- A statement with loops written out. -/
theorem execStmt_framed (enough : side.Enough (n + 1) (k + 1)) (tracks : F.Tracks frame frame' gaps) {s s' : Stmt}
    (deepens : s.Deepens K.Moved gaps s') :
    Run.Framed side K F Equal ((evaluator K.distances n).execStmt K.distances n frame s)
      ((evaluator K.distances' k).execStmt K.distances' k frame' s') := by
  have same := framed k (enough.down (by omega) (by omega))
  have outlasts : side.Outlasts n k := (enough.down (by omega) (by omega)).outlasts
  cases deepens with
  | expr value => exact (same.expr tracks value).andThen fun _ _ _ => framed_done _
  | print line items =>
    refine (Evaluator.textsOf_framed same tracks items).andThen fun _ texts _ => ?_
    exact (framed_printLine line _).andThen fun _ _ _ => framed_done _
  | varDecl name line innermost initial =>
    refine (Evaluator.exprOrNil_framed same tracks initial).andThen fun _ v grown => ?_
    exact (framed_bind ((tracks.shared innermost).mono grown) name v).andThen fun _ _ _ => framed_done _
  | block body =>
    exact (framed_addFrame tracks).bind fun _ _ _ _ inside => Evaluator.body_framed same inside body
  | ifThen test consequent =>
    refine (Evaluator.test_framed same tracks test).andThen fun _ goesOn grown => ?_
    cases goesOn with
    | true => exact same.stmt (tracks.mono grown) consequent
    | false => exact framed_done _
  | ifElse test consequent alternative =>
    refine (Evaluator.test_framed same tracks test).andThen fun _ goesOn grown => ?_
    cases goesOn with
    | true => exact same.stmt (tracks.mono grown) consequent
    | false => exact same.stmt (tracks.mono grown) alternative
  | whileLoop test body => exact framed_rounds (Evaluator.test_framed same tracks test) (same.stmt tracks body) outlasts
  | forLoop test step body =>
    refine (framed_addFrame tracks).bind fun _ _ _ _ inside => ?_
    exact (framed_done ()).andThen fun _ _ grown =>
      Evaluator.forRounds_framed same (inside.mono grown) outlasts test step body
  | forFrom initial test step body =>
    refine (framed_addFrame tracks).bind fun _ _ _ _ inside => ?_
    have clause := (same.stmt inside initial).andThen (S := Equal) fun _ _ _ => framed_done ()
    exact clause.andThen fun _ _ grown => Evaluator.forRounds_framed same (inside.mono grown) outlasts test step body
  | lowered test step body own => exact whileForm_framed framed enough tracks test step body own
  | loweredFrom starts initial test step body own =>
    exact whileFrom_framed framed enough tracks starts initial test step body own
  | breakLoop => exact framed_done _
  | continueLoop => exact framed_done _
  | funDecl innermost decl =>
    refine (framed_make fun later h h' grown heaps => ?_).andThen fun _ r grown => ?_
    · exact heaps.addClosure ⟨⟨gaps, tracks.mono grown, innermost, decl⟩, rfl⟩
    · rw [decl.name]
      exact (framed_bind ((tracks.shared innermost).mono grown) _ _).andThen fun _ _ _ => framed_done _
  | returnValue line value => exact (Evaluator.exprOrNil_framed same tracks value).andThen fun _ v _ => framed_done _
  | classDecl name line innermost superclass methods =>
    exact (declareClass_framed tracks innermost name line superclass methods).andThen fun _ _ _ => framed_done _

end Loops

/-! ### Runs -/

section Runs

variable {side : Side} {K : Bearings} {F : Framing}

theorem evaluator_framed (n : Nat) : Evaluator.FramedFor side K n := by
  induction n with
  | zero =>
    intro k enough
    cases side with
    | given => exact ⟨fun _ _ => framed_starve_given rfl _, fun _ _ => framed_starve_given rfl _,
        fun _ _ => framed_starve_given rfl _⟩
    | other =>
      obtain rfl : k = 0 := Nat.le_zero.mp enough
      exact ⟨fun _ _ => framed_starve_other rfl _, fun _ _ => framed_starve_other rfl _,
        fun _ _ => framed_starve_other rfl _⟩
  | succ n ih =>
    intro k enough
    cases k with
    | zero =>
      have passes : side = .other := enough.eq_other (by decide)
      exact ⟨fun _ _ => framed_starve_other passes _, fun _ _ => framed_starve_other passes _,
        fun _ _ => framed_starve_other passes _⟩
    | succ k =>
      have same := ih k (enough.down (by omega) (by omega))
      exact ⟨fun tracks alike => Evaluator.evalExpr_framed same tracks alike,
        fun tracks deepens => execStmt_framed ih enough tracks deepens, Evaluator.invokeClosure_framed same⟩

/-- A program with loops written out runs as the given one does. -/
theorem interpret_framed (tracks : F.Tracks Heap.globals Heap.globals []) {n k : Nat} (enough : side.Enough n k)
    {program program' : List Stmt} (deepens : Stmt.DeepensAll K.Moved [] program program') :
    Run.Framed side K F Equal (interpret (evaluator K.distances n) program)
      (interpret (evaluator K.distances' k) program') := by
  induction program generalizing F program' with
  | nil =>
    cases deepens
    exact framed_done ()
  | cons s rest ih =>
    cases deepens with
    | cons first others =>
      exact ((evaluator_framed n k enough).stmt tracks first).andThen fun _ _ grown => ih (tracks.mono grown) others

end Runs

end Lox
