import Lox.Proofs.Machine.Calls
import Lox.Proofs.Machine.Jumps
import Lox.Proofs.Session.Receivers

/-!
Initializers. With the right number of arguments the call of a class gives a new instance of just that class,
whatever its initializer does, unless the initializer fails. An initializer that is read as a property or by way of
`super` is bound to an instance for good, and gives that instance whenever a call of it ends well.
-/

namespace Lox

open Run Session

/-! ### What is bound -/

/-- A function is an initializer that is bound to an instance. -/
def Heap.Initializes (h : Heap) (f : Ref .closure) (receiver : Ref .instance) : Prop :=
  ∃ closure, h.closure? f = some closure ∧ closure.isInitializer ∧
    h.binding? closure.scope thisName = some (.instance receiver)

/-- As many arguments as the nearest initializer has parameters, and none if there is no initializer. -/
def Heap.Takes (h : Heap) (c : Ref .classObject) (expected : Nat) : Prop :=
  (∃ owner initializer, h.Inherits c initName owner initializer ∧ expected = initializer.decl.params.length) ∨
  ((∀ owner, h.Reaches c owner → h.ownMethod? initName owner = none) ∧ expected = 0)

variable {visited : Point → Prop} {accepted : List Stmt → Prop} {h h' : Heap} {f : Ref .closure}
variable {receiver : Ref .instance} {method : Closure} {c : Ref .classObject} {m m' : Machine} {v : Value}
variable {line : Nat} {arguments : List Value}

theorem Heap.Initializes.mono (initializes : h.Initializes f receiver) (grows : h.Grows h') :
    h'.Initializes f receiver := by
  obtain ⟨closure, found, flag, this⟩ := initializes
  exact ⟨closure, grows.closures f closure found, flag, grows.this this⟩

/-- It was bound to the same instance from the start. -/
theorem Heap.Initializes.back (initializes : h'.Initializes f receiver) (sound : WellScoped visited accepted h)
    (grows : h.Grows h') (there : (h.closure? f).isSome) : h.Initializes f receiver := by
  obtain ⟨closure, found, flag, this⟩ := initializes
  obtain ⟨before, is⟩ := Option.isSome_iff_exists.mp there
  obtain rfl := Option.some.inj (found.symm.trans (grows.closures f before is))
  have frame : (h.frame? closure.scope).isSome := by
    rcases (sound.closures f closure is).2 with plain | ⟨_, _, _, _, received, -⟩
    · exact plain.1
    · exact Heap.binding?_present received.receives.this
  exact ⟨closure, is, flag, (grows.fixed _ _ frame (Or.inl rfl)).symm.trans this⟩

theorem Heap.initArity_takes (ordered : h.Ordered) (present : c.index < h.classes.size) :
    h.Takes c (h.initArity c) := by
  unfold Heap.initArity
  rcases Heap.method?_cases ordered present initName with ⟨owner, initializer, found, inherits⟩ | ⟨missing, none⟩
  · rw [found]
    exact Or.inl ⟨owner, initializer, inherits, rfl⟩
  · rw [missing]
    exact Or.inr ⟨none, rfl⟩

/-- What a class has or inherits under the name of initializers is an initializer. -/
theorem WellScoped.initializer (sound : WellScoped visited accepted h) (found : h.method? c initName = some method) :
    method.isInitializer := by
  obtain ⟨owner, -, own⟩ := Heap.owner_of_method? found
  obtain ⟨made, there, has⟩ := Option.bind_eq_some_iff.mp own
  obtain ⟨-, _, _, _, _, _, -, declared, -⟩ := sound.classes owner made initName method there has
  cases declared with
  | intro _ _ _ _ _ is =>
    obtain rfl := Option.some.inj (there.symm.trans is)
    obtain ⟨decl, -, named, same⟩ := methodTable_get? has
    rw [same]
    exact decide_eq_true named

/-! ### Where initializers are read -/

theorem methodValue_initializes (flag : method.isInitializer) (done : methodValue method receiver m = .ok v m') :
    ∃ f, v = .function f ∧ m'.heap.Initializes f receiver := by
  obtain ⟨f, _, made, r, found, this, -⟩ := methodValue_binds method receiver m
  cases made.symm.trans done
  exact ⟨f, rfl, _, found, flag, this⟩

/-- As a property the initializer of an instance is bound to the instance, unless a field has its name. -/
theorem readProperty_initializes (sound : WellScoped visited accepted m.heap)
    (done : readProperty receiver initName line m = .ok v m') :
    (∃ i, m.heap.instance? receiver = some i ∧ i.fields.get? initName = some v) ∨
      ∃ f, v = .function f ∧ m'.heap.Initializes f receiver := by
  obtain ⟨field?, _, ran, done⟩ := bind_ok done
  obtain ⟨field, rfl⟩ := read_ok ran
  cases field? with
  | some value =>
    obtain ⟨rfl, -⟩ := pure_ok done
    exact Or.inl (Option.bind_eq_some_iff.mp field.symm)
  | none =>
    obtain ⟨method?, _, ran, done⟩ := bind_ok done
    obtain ⟨search, rfl⟩ := read_ok ran
    obtain ⟨method, _, ran, done⟩ := bind_ok done
    obtain ⟨isMethod, rfl⟩ := ofOption_ok ran
    obtain ⟨i, -, found⟩ := Option.bind_eq_some_iff.mp (search.symm.trans isMethod)
    exact Or.inr (methodValue_initializes (sound.initializer found) done)

/-- By way of `super` it is bound to what the frame within that of `super` binds `this` to. -/
theorem readSuper_initializes {distances : Distances} {frame : Ref .frame} {id : Nat}
    (sound : WellScoped visited accepted m.heap) (done : readSuper distances frame id initName line m = .ok v m') :
    ∃ d inner receiver f, distances.get? id = some (d + 1) ∧ m.heap.ancestor? frame d = some inner ∧
      m.heap.binding? inner thisName = some (.instance receiver) ∧ v = .function f ∧
      m'.heap.Initializes f receiver := by
  unfold readSuper at done
  rcases distance : distances.get? id with _ | _ | d <;> rw [distance] at done
  case none | some.zero => cases done
  obtain ⟨super?, _, ran, done⟩ := bind_ok done
  obtain ⟨-, rfl⟩ := read_ok ran
  split at done
  case h_2 => cases done
  next superclass =>
  obtain ⟨this?, _, ran, done⟩ := bind_ok done
  obtain ⟨this, rfl⟩ := read_ok ran
  split at done
  case h_2 => cases done
  next receiver =>
  obtain ⟨inner, inside, this⟩ := Option.bind_eq_some_iff.mp this.symm
  obtain ⟨method?, _, ran, done⟩ := bind_ok done
  obtain ⟨search, rfl⟩ := read_ok ran
  obtain ⟨method, _, ran, done⟩ := bind_ok done
  obtain ⟨isMethod, rfl⟩ := ofOption_ok ran
  obtain ⟨f, rfl, initializes⟩ := methodValue_initializes (sound.initializer (search.symm.trans isMethod)) done
  exact ⟨d, inner, receiver, f, rfl, inside, this, rfl, initializes⟩

/-! ### Calls of initializers -/

/-- Whatever its body gives, an initializer gives what `this` is bound to in the end. -/
theorem invokeClosure_initializer {self : Evaluator} {closure : Closure} (flag : closure.isInitializer)
    (done : self.invokeClosure closure arguments m = .ok v m') :
    v = (m'.heap.binding? closure.scope thisName).getD .nil := by
  obtain ⟨frame, m₁, -, done⟩ := bind_ok done
  obtain ⟨_, m₂, -, done⟩ := bind_ok done
  obtain ⟨flow, m₃, -, done⟩ := bind_ok done
  rw [if_pos flag, read_bind] at done
  obtain ⟨rfl, rfl⟩ := pure_ok done
  rfl

variable {distances : Distances} {n : Nat}

theorem call_initializer (known : ∀ program, accepted program → Sound distances program) (settled : Settled accepted m)
    (given : ∀ v ∈ arguments, Gives v m) (initializes : m.heap.Initializes f receiver)
    (done : call (evaluator distances n).invoke (.function f) arguments line m = .ok v m') :
    v = .instance receiver := by
  obtain ⟨closure, found, flag, this⟩ := initializes
  obtain ⟨fits, invoked⟩ := call_function_ok found done
  have callable := settled.sound.closures f closure found
  -- The run of the body leaves the binding of `this` alone, which is what is read in the end.
  obtain ⟨-, -, grows, -⟩ := settled.onward ((keeps_presence distances n).invoke given)
    ((settled_scopes known n).invoke fits callable) invoked
  cases n with
  | zero => cases invoked
  | succ n =>
    rw [invokeClosure_initializer flag invoked, grows.heap.this this]
    rfl

/-! ### Calls of classes -/

/-- Instances stay instances of their classes. -/
theorem allows_classOf : Allows fun m m' => ∀ r i, m.heap.instance? r = some i →
    ∃ i', m'.heap.instance? r = some i' ∧ i'.classRef = i.classRef where
  refl _ _ i found := ⟨i, found, rfl⟩
  trans first second r i found := by
    obtain ⟨i₁, found₁, same₁⟩ := first r i found
    obtain ⟨i₂, found₂, same₂⟩ := second r i₁ found₁
    exact ⟨i₂, found₂, same₂.trans same₁⟩
  addFrame _ _ _ i found := ⟨i, found, rfl⟩
  addClosure _ _ _ i found := ⟨i, found, rfl⟩
  addClass _ _ _ i found := ⟨i, found, rfl⟩
  addInstance _ _ _ i found := ⟨i, push_getElem? found _, rfl⟩
  addArray _ _ _ i found := ⟨i, found, rfl⟩
  bind _ _ _ _ _ i found := ⟨i, found, rfl⟩
  setField m receiver name value r i found := by
    obtain ⟨i', found', same, -⟩ := (Heap.Grows.setField m.heap receiver name value).instances r i found
    exact ⟨i', found', same⟩
  setElement _ _ _ _ _ i found := ⟨i, found, rfl⟩
  pushElement _ _ _ _ i found := ⟨i, found, rfl⟩
  write _ _ _ i found := ⟨i, found, rfl⟩

/-- What the call of a class on a machine comes to. -/
structure Constructs (ev : Evaluator) (c : Ref .classObject) (arguments : List Value) (line : Nat) (m : Machine)
    (result : EStateM.Result Stop Machine Value) : Prop where
  takes : m.heap.Takes c (m.heap.initArity c)
  /-- With a wrong number of arguments nothing is done. -/
  refused : arguments.length ≠ m.heap.initArity c →
    result = .error (.fault ⟨line, .arity (m.heap.initArity c) arguments.length⟩) m
  /-- With the right number there is a new instance of the class, or the initializer fails for it. -/
  made : arguments.length = m.heap.initArity c →
    let new := (m.heap.addInstance c).1
    m.heap.instance? new = none ∧
    ((∃ m' i, result = .ok (.instance new) m' ∧ m'.heap.instance? new = some i ∧ i.classRef = c) ∨
      ∃ initializer stop m', m.heap.method? c initName = some initializer ∧
        ev.invoke (m.heap.instantiate c initializer).1 arguments
          { m with heap := (m.heap.instantiate c initializer).2 } = .error stop m' ∧
        result = .error stop m')

theorem call_constructs (ordered : m.heap.Ordered) (present : c.index < m.heap.classes.size) (n : Nat) :
    Constructs (evaluator distances n) c arguments line m
      (call (evaluator distances n).invoke (.classObject c) arguments line m) := by
  have called := @call_class (evaluator distances n).invoke arguments line m c
  refine ⟨Heap.initArity_takes ordered present, fun differs => ?_, fun fits => ⟨?_, ?_⟩⟩
  · rw [called, arityError?, if_neg differs]
  · exact Array.getElem?_eq_none (Nat.le_refl _)
  rw [arityError?, if_pos fits] at called
  have new : (m.heap.addInstance c).2.instance? (m.heap.addInstance c).1 = some ⟨c, []⟩ := by
    rw [Heap.instance?_addInstance, if_pos rfl]
  cases found : m.heap.method? c initName with
  | none =>
    rw [found] at called
    exact Or.inl ⟨_, _, called, new, rfl⟩
  | some initializer =>
    rw [found] at called
    have stays := (evaluator_within allows_classOf distances n).invoke (m.heap.instantiate c initializer).1 arguments
      { m with heap := (m.heap.instantiate c initializer).2 } _ _ new
    cases ran : (evaluator distances n).invoke (m.heap.instantiate c initializer).1 arguments
        { m with heap := (m.heap.instantiate c initializer).2 } with
    | ok w m' =>
      rw [ran] at stays
      obtain ⟨i, there, same⟩ := stays
      exact Or.inl ⟨m', i, called.trans (bind_of_ok ran _), there, same⟩
    | error stop m' => exact Or.inr ⟨initializer, stop, m', rfl, ran, called.trans (bind_of_error ran _)⟩

/-! ### Points of a session -/

variable {limit? : Option Nat} {before : List Step} {depth : Nat} {source : String}
variable {frame : Ref .frame} {callee : Expr} {operands : List Expr} {m₁ m₂ : Machine} {w : Value} {vs : List Value}

/-- Callee and arguments leave a settled machine, on which they are all there, to the call itself. -/
theorem visits_call (visits : (after limit? before).Visits depth source ⟨.expr frame (.call callee operands line), m⟩)
    (called : (evaluator ((after limit? before).known source) n).expr frame callee m = .ok w m₁)
    (given : each ((evaluator ((after limit? before).known source) n).expr frame) operands m₁ = .ok vs m₂) :
    Settled (AcceptedIn limit? (before ++ [.eval depth source])) m₂ ∧ m₁.Grows m₂ ∧ Gives w m₂ ∧
      (∀ v ∈ vs, Gives v m₂) ∧
      (evaluator ((after limit? before).known source) (n + 1)).expr frame (.call callee operands line) m =
        call (evaluator ((after limit? before).known source) n).invoke w vs line m₂ := by
  have scopes := settled_scopes (visits_known visits) n
  obtain ⟨settled, -, chain, pending?, refersAt⟩ := visits_settled visits
  obtain ⟨settled₁, -, grows, gives⟩ := settled.onward (keeps_presence _ n).expr
    (scopes.expr (refersAt.sub (.refl _) fun ref => List.mem_append_left _)) called
  have rules := presence_owns ((after limit? before).known source)
  obtain ⟨settled₂, retains, grows', owned⟩ := settled₁.onward ((keeps_owned rules n).each rules trivial operands)
    (safe_each scopes (refersAt.sub grows.heap fun ref => List.mem_append_right _)) given
  refine ⟨settled₂, grows', retains w gives, fun v member => gives_of_owned (owned v member), ?_⟩
  exact (bind_of_ok called _).trans (bind_of_ok given _)

/-- What initializers come to, at the points that a run comes by and on the machines that its session reaches, when
what is there is done to some depth. -/
structure Initializing (visits : Point → Prop) (reached : Machine → Prop) (distances : Distances) (n : Nat) : Prop where
  /-- The call of a class gives a new instance of just that class, or is refused, or the initializer fails. -/
  classes : ∀ frame callee operands line m c m₁ vs m₂, visits ⟨.expr frame (.call callee operands line), m⟩ →
    (evaluator distances n).expr frame callee m = .ok (.classObject c) m₁ →
    each ((evaluator distances n).expr frame) operands m₁ = .ok vs m₂ →
    Constructs (evaluator distances n) c vs line m₂
      ((evaluator distances (n + 1)).expr frame (.call callee operands line) m)
  /-- A property of the name of initializers is a field of an instance, or an initializer that is bound to it. -/
  property : ∀ frame object line m v m', visits ⟨.expr frame (.field object initName line), m⟩ →
    (evaluator distances (n + 1)).expr frame (.field object initName line) m = .ok v m' →
    ∃ receiver m₁, (evaluator distances n).expr frame object m = .ok (.instance receiver) m₁ ∧
      ((∃ i, m₁.heap.instance? receiver = some i ∧ i.fields.get? initName = some v) ∨
        ∃ f, v = .function f ∧ m'.heap.Initializes f receiver)
  /-- What is read by way of `super` under that name is an initializer that is bound to what `this` is. -/
  super : ∀ frame id line m v m', visits ⟨.expr frame (.superRef id initName line), m⟩ →
    (evaluator distances (n + 1)).expr frame (.superRef id initName line) m = .ok v m' →
    ∃ d inner receiver f, distances.get? id = some (d + 1) ∧ m.heap.ancestor? frame d = some inner ∧
      m.heap.binding? inner thisName = some (.instance receiver) ∧ v = .function f ∧ m'.heap.Initializes f receiver
  /-- If the call of an initializer gives anything, then the instance to which it was bound, however long ago. -/
  bound : ∀ frame callee operands line m f m₁ vs m₂ v m', visits ⟨.expr frame (.call callee operands line), m⟩ →
    (evaluator distances n).expr frame callee m = .ok (.function f) m₁ →
    each ((evaluator distances n).expr frame) operands m₁ = .ok vs m₂ →
    (evaluator distances (n + 1)).expr frame (.call callee operands line) m = .ok v m' →
    ∀ (earlier : Machine) (receiver : Ref .instance), earlier.heap.Initializes f receiver → earlier.Grows m₁ →
      v = .instance receiver
  /-- All machines on which it has been made bind it to the same instance. -/
  lasting : ∀ m m', reached m → reached m' → ∀ f receiver, m.heap.Initializes f receiver →
    (m'.heap.closure? f).isSome → m'.heap.Initializes f receiver

/-- Wherever a session comes by the call of a class, with another number of arguments than the nearest initializer of
the class has parameters it is refused, and else it gives a new instance of that very class unless the initializer
fails, whatever the initializer does. And an initializer that is read as a property or by way of `super` is bound to an
instance for good, and gives that instance whenever a call of it gives anything. -/
theorem initializers_give_instances (limit? : Option Nat) (before : List Step) (depth : Nat) (source : String)
    (n : Nat) :
    Initializing ((after limit? before).Visits depth source) (Reached limit? (before ++ [.eval depth source]))
      ((after limit? before).known source) n where
  classes frame callee operands line m c m₁ vs m₂ visits called given := by
    obtain ⟨settled, -, present, -, result⟩ := visits_call visits called given
    rw [result]
    exact call_constructs settled.sound.ordered present n
  property frame object line m v m' visits done := by
    obtain ⟨settled, -, chain, pending?, refersAt⟩ := visits_settled visits
    obtain ⟨w, m₁, objectDone, done⟩ := bind_ok done
    obtain ⟨receiver, _, ran, done⟩ := bind_ok done
    obtain ⟨isInstance, rfl⟩ := ofOption_ok ran
    obtain rfl := Value.instance?_some isInstance
    obtain ⟨settled₁, -⟩ := settled.onward (keeps_presence _ n).expr
      ((settled_scopes (visits_known visits) n).expr (e := object) refersAt) objectDone
    exact ⟨receiver, m₁, objectDone, readProperty_initializes settled₁.sound done⟩
  super frame id line m v m' visits done :=
    readSuper_initializes (visits_settled visits).1.sound done
  bound frame callee operands line m f m₁ vs m₂ v m' visits called given done earlier receiver initializes grows := by
    obtain ⟨settled, grows', -, gives, result⟩ := visits_call visits called given
    rw [result] at done
    exact call_initializer (visits_known visits) settled gives (initializes.mono (grows.trans grows').heap) done
  lasting m m' reached reached' f receiver initializes there := by
    rcases reached.ordered reached' with onward | back
    · exact initializes.mono onward.heap
    · exact initializes.back (reached_scoped reached') back.heap there

theorem initializers_give_instances_early_return :
    let source := "class A { init(x) { return; } } A(nil).init(true);"
    let init : FunctionDecl := ⟨"init", ["x"], [.returnValue none 1], 1⟩
    let made : Expr := .call (.var ⟨0, "A", 1⟩) [.literal .nil] 1
    let again : Expr := .call (.field made "init" 1) [.literal (.bool true)] 1
    let heap : Heap := ⟨#[⟨none, [("len", .native .len), ("push", .native .push), ("A", .classObject ⟨0⟩)]⟩], #[],
      #[⟨"A", none, [("init", ⟨init, ⟨0⟩, true⟩)]⟩], #[], #[]⟩
    let m : Machine := ⟨heap, .empty none⟩
    let self := evaluator ((after none []).known source)
    (after none []).Visits 9 source ⟨.expr Heap.globals made, m⟩ ∧
      (after none []).Visits 9 source ⟨.expr Heap.globals again, m⟩ ∧
      (∃ m' i, (self 6).expr Heap.globals made m = .ok (.instance ⟨0⟩) m' ∧ m'.heap.instance? ⟨0⟩ = some i ∧
        i.classRef = ⟨0⟩) ∧
      ∃ m', (self 7).expr Heap.globals again m = .ok (.instance ⟨0⟩) m' := by
  have known : (after none []).known "class A { init(x) { return; } } A(nil).init(true);" = [] := by
    decide +kernel
  have program : (after none []).program "class A { init(x) { return; } } A(nil).init(true);" =
      [.classDecl "A" none [⟨"init", ["x"], [.returnValue none 1], 1⟩] 1,
        .expr (.call (.field (.call (.var ⟨0, "A", 1⟩) [.literal .nil] 1) "init" 1) [.literal (.bool true)] 1)] := rfl
  intro source init made again heap m self
  let declared : Stmt := .classDecl "A" none [init] 1
  -- What the second statement comes by, once the first one has made the class, the session comes by.
  have visits (p : Point) (apart : p.task ≠ .stmt Heap.globals declared)
      (apart' : p.task ≠ .stmt Heap.globals (.expr again))
      (within : ∀ stop, (breakpoint [] p stop 8).expr Heap.globals again m = .error stop p.machine) :
      (after none []).Visits 9 source p := by
    refine ⟨by decide +kernel, fun stop => ?_⟩
    rw [program, known]
    have first : (breakpoint [] p stop 9).stmt Heap.globals declared (.start none) = .ok .normal m :=
      (Point.guard_other apart stop _ _).trans rfl
    have second : (breakpoint [] p stop 9).stmt Heap.globals (.expr again) m = .error stop p.machine :=
      (Point.guard_other apart' stop _ _).trans (bind_of_error (within stop) _)
    exact (bind_of_ok first _).trans (bind_of_error second _)
  have visitsMade : (after none []).Visits 9 source ⟨.expr Heap.globals made, m⟩ := by
    refine visits _ (by simp) (by simp) fun stop => ?_
    let p : Point := ⟨.expr Heap.globals made, m⟩
    have object : (breakpoint [] p stop 7).expr Heap.globals (.field made "init" 1) m = .error stop m :=
      (Point.guard_other (by simp [p, made]) stop _ _).trans (bind_of_error (Point.guard_here _ _ stop _) _)
    exact (Point.guard_other (by simp [made, again]) stop _ _).trans (bind_of_error object _)
  have visitsAgain : (after none []).Visits 9 source ⟨.expr Heap.globals again, m⟩ :=
    visits _ (by simp) (by simp) fun stop => Point.guard_here _ _ stop _
  refine ⟨visitsMade, visitsAgain, ?_, ?_⟩
  · have callee : (self 5).expr Heap.globals (.var ⟨0, "A", 1⟩) m = .ok (.classObject ⟨0⟩) m := by
      change (evaluator ((after none []).known _) 5).expr _ _ _ = _
      rw [known]
      rfl
    have constructs := (initializers_give_instances none [] 9 source 5).classes _ _ _ _ m ⟨0⟩ m [.nil] m visitsMade
      callee rfl
    obtain ⟨-, new | ⟨initializer, stop, m', found, failed, -⟩⟩ := constructs.made rfl
    · exact new
    · rw [known] at failed
      cases Option.some.inj found
      cases failed
  · -- The new instance is 0; frame 1 binds it for the call of the class, and frame 3 for the property.
    let m₁ : Machine := ⟨⟨#[⟨none, [("len", .native .len), ("push", .native .push), ("A", .classObject ⟨0⟩)]⟩,
        ⟨some ⟨0⟩, [("this", .instance ⟨0⟩)]⟩, ⟨some ⟨1⟩, [("x", .nil)]⟩, ⟨some ⟨0⟩, [("this", .instance ⟨0⟩)]⟩],
      #[⟨init, ⟨3⟩, true⟩], heap.classes, #[⟨⟨0⟩, []⟩], #[]⟩, .empty none⟩
    have callee : (self 6).expr Heap.globals (.field made "init" 1) m = .ok (.function ⟨0⟩) m₁ := by
      change (evaluator ((after none []).known _) 6).expr _ _ _ = _
      rw [known]
      rfl
    have initializes : m₁.heap.Initializes ⟨0⟩ ⟨0⟩ := ⟨_, rfl, rfl, rfl⟩
    obtain ⟨v, m', called⟩ : ∃ v m', call (self 6).invoke (.function ⟨0⟩) [.bool true] 1 m₁ = .ok v m' := ⟨_, _, rfl⟩
    have done : (self 7).expr Heap.globals again m = .ok v m' := (bind_of_ok callee _).trans called
    have same := (initializers_give_instances none [] 9 source 6).bound _ _ _ _ m ⟨0⟩ m₁ [.bool true] m₁ v m'
      visitsAgain callee rfl done m₁ ⟨0⟩ initializes (.refl m₁)
    exact ⟨m', same ▸ done⟩

end Lox
