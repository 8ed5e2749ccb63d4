import Lox.Proofs.Scope.Receivers
import Lox.Proofs.Session.Persistence
import Lox.Proofs.Session.Scopes

/-!
Methods and their receivers. On every machine of a session a frame that binds `this` was made for a method of
a class, and binds an instance whose class has the method or inherits from the class that has it, for good.
Wherever a session comes by `this` or `super`, the frame of the innermost method around it is such a frame, and
the search that `super` starts begins at the superclass that was read when the class of that method was declared.
-/

namespace Lox

open Run Session

/-! ### Methods as values -/

/-- A function is a method that is bound to an instance, in a frame within that of the methods of its class. -/
def Heap.Binds (h : Heap) (f : Ref .closure) (method : Closure) (receiver : Ref .instance) : Prop :=
  ∃ r, h.closure? f = some { method with scope := r } ∧ h.binding? r thisName = some (.instance receiver) ∧
    (h.frame? r).bind (·.parent?) = some method.scope

theorem methodValue_binds (method : Closure) (receiver : Ref .instance) (m : Machine) :
    ∃ f m', methodValue method receiver m = .ok (.function f) m' ∧ m'.heap.Binds f method receiver := by
  let h := (m.heap.enclose method.scope thisName (.instance receiver)).2
  let r := (m.heap.enclose method.scope thisName (.instance receiver)).1
  let bound : Closure := { method with scope := r }
  have this : h.binding? r thisName = some (.instance receiver) := by
    rw [Heap.binding?_enclose, if_pos rfl]
  have outside : (h.frame? r).bind (·.parent?) = some method.scope := by
    rw [Heap.frame?_enclose, if_pos rfl]
    rfl
  refine ⟨(h.addClosure bound).1, { m with heap := (h.addClosure bound).2 }, rfl, r, ?_, this, outside⟩
  rw [Heap.closure?_addClosure, if_pos rfl]

variable {distances : Distances} {frame : Ref .frame} {m : Machine} {id d : Nat}

/-! ### The method around a place -/

variable {visited : Point → Prop} {accepted : List Stmt → Prop} {h : Heap} {inner outer : List Place} {decl : Stmt}

/-- The frame of the innermost method around a place. -/
theorem Tracks.received
    (tracks : Tracks visited accepted h frame (inner ++ ⟨.receiver decl, [thisName]⟩ :: outer)) :
    ∃ r receiver c method, h.ancestor? frame inner.length = some r ∧
      Received visited accepted h decl r receiver c method := by
  obtain ⟨r, reached, -, ⟨receiver, c, method, received⟩, -⟩ :=
    tracks.ancestor (d := inner.length) (by rw [List.getElem?_append_right (Nat.le_refl _), Nat.sub_self]; rfl)
  exact ⟨r, receiver, c, method, reached, received⟩

/-- With a superclass the frame around it is that of the methods of the class, and binds the superclass. -/
theorem Tracks.superclass
    (tracks : Tracks visited accepted h frame
      (inner ++ ⟨.receiver decl, [thisName]⟩ :: ⟨.superclass decl, [superName]⟩ :: outer)) :
    ∃ r receiver c method, h.ancestor? frame inner.length = some r ∧
      Received visited accepted h decl r receiver c method ∧
      h.ancestor? frame (inner.length + 1) = some method.scope ∧ (h.binding? method.scope superName).isSome := by
  obtain ⟨r, receiver, c, method, reached, received⟩ := tracks.received
  obtain ⟨scope, around, -, -, bound⟩ :=
    tracks.ancestor (d := inner.length + 1) (by rw [List.getElem?_append_right (Nat.le_succ _)]; simp; rfl)
  have parent := ancestor?_succ around reached
  obtain rfl := Option.some.inj (parent.symm.trans received.receives.outside)
  exact ⟨r, receiver, c, method, reached, received, around, bound superName List.mem_cons_self⟩

/-- A node that is no target of an assignment has the distance of its site. -/
theorem site_distance {program : List Stmt} (sound : Sound distances program) {site : Site}
    (member : site ∈ Stmt.sitesAll program []) (read : site.reference.assigned = false) :
    distances.get? site.reference.id = site.distance? := by
  have agrees := sound.agrees site member
  exact agrees.2 fun pending => absurd (agrees.1 pending) (by simp [read])

/-! ### Points of a session -/

variable {limit? : Option Nat} {steps before : List Step} {depth : Nat} {source : String} {p : Point}

theorem AcceptedIn.housed {program : List Stmt} (inside : AcceptedIn limit? steps program) :
    ∀ site ∈ Stmt.sitesAll program [], site.Housed := by
  obtain ⟨before, depth, source, -, accepted, rfl⟩ := inside
  obtain ⟨-, -, lexical⟩ := accepted_read accepted
  exact resolve_housed lexical (List.append_eq_nil_iff.mp accepted).2

/-- At a point of a session everything is as expected, with the points of all its steps in view. -/
theorem visits_scoped (part : before ++ [.eval depth source] <+: steps)
    (visits : (after limit? before).Visits depth source p) :
    WellScoped (Visited limit? steps) (AcceptedIn limit? (before ++ [.eval depth source])) p.machine.heap ∧
      Expected (Visited limit? steps) (AcceptedIn limit? (before ++ [.eval depth source])) p := by
  have met (q : Point) (there : Visited limit? (before ++ [.eval depth source]) q) : Visited limit? steps q := by
    obtain ⟨earlier, depth', source', inside, visits⟩ := there
    exact ⟨earlier, depth', source', inside.trans part, visits⟩
  exact (session_kept (fun _ => visited_closed) met visits.1).expects p visits.2

theorem reached_scoped {m : Machine} (reached : Reached limit? steps m) :
    WellScoped (Visited limit? steps) (AcceptedIn limit? steps) m.heap := by
  cases reached with
  | between part =>
    have sound : (after limit? _).Sound (Visited limit? steps) (AcceptedIn limit? _) :=
      session_sound (fun _ => visited_closed) (fun _ => id) part
    exact sound.heap.wider fun _ inside => inside.mono part
  | point met =>
    obtain ⟨before, depth, source, part, visits⟩ := met
    exact (visits_scoped part visits).1.wider fun _ inside => inside.mono part

/-! ### What `this` means -/

/-- What binds `this` on a machine that a session has. -/
structure Receiving (limit? : Option Nat) (steps : List Step) (m : Machine) : Prop where
  /-- A frame that binds `this` was made for a method of a class that the class of the instance reaches. -/
  frames : ∀ r value, m.heap.binding? r thisName = some value → ∃ receiver, value = .instance receiver ∧
    ∃ decl c method, Received (Visited limit? steps) (AcceptedIn limit? steps) m.heap decl r receiver c method
  /-- A function in such a frame is that method. -/
  methods : ∀ f closure value, m.heap.closure? f = some closure →
    m.heap.binding? closure.scope thisName = some value → ∃ receiver, value = .instance receiver ∧
    ∃ decl c method, closure = { method with scope := closure.scope } ∧
      Received (Visited limit? steps) (AcceptedIn limit? steps) m.heap decl closure.scope receiver c method
  /-- It binds `this` to the same instance on all machines of the session. -/
  lasting : ∀ m', Reached limit? steps m' → ∀ r, (m.heap.frame? r).isSome → (m'.heap.frame? r).isSome →
    m'.heap.binding? r thisName = m.heap.binding? r thisName
  acyclic : ∀ c, ¬ Relation.TransGen m.heap.Extends c c
  /-- The search for a method goes from each class to its superclass, however far. -/
  search : ∀ c name, c.index < m.heap.classes.size → m.heap.method? c name =
    (m.heap.ownMethod? name c).or (((m.heap.classObject? c).bind (·.superclass?)).bind (m.heap.method? · name))
  /-- A node for `this` stands in a method of a class declaration, and gives the instance for which the frame
  of the innermost such method was made. -/
  this : ∀ before depth source frame id line, before ++ [.eval depth source] <+: steps →
    (after limit? before).Visits depth source ⟨.expr frame (.thisRef id line), m⟩ →
    ∃ program site inner decl outer, AcceptedIn limit? steps program ∧ site ∈ Stmt.sitesAll program [] ∧
      site.reference = ⟨id, thisName, false⟩ ∧ Between inner ∧
      site.chain = inner ++ ⟨.receiver decl, [thisName]⟩ :: outer ∧
      ∃ r receiver c method, m.heap.ancestor? frame inner.length = some r ∧
        Received (Visited limit? steps) (AcceptedIn limit? steps) m.heap decl r receiver c method ∧
        ∀ n, (evaluator ((after limit? before).known source) (n + 1)).expr frame (.thisRef id line) m =
          .ok (.instance receiver) m

theorem this_receives {frame : Ref .frame} {line : Nat} (part : before ++ [.eval depth source] <+: steps)
    (visits : (after limit? before).Visits depth source ⟨.expr frame (.thisRef id line), m⟩) :
    ∃ program site inner decl outer, AcceptedIn limit? steps program ∧ site ∈ Stmt.sitesAll program [] ∧
      site.reference = ⟨id, thisName, false⟩ ∧ Between inner ∧
      site.chain = inner ++ ⟨.receiver decl, [thisName]⟩ :: outer ∧
      ∃ r receiver c method, m.heap.ancestor? frame inner.length = some r ∧
        Received (Visited limit? steps) (AcceptedIn limit? steps) m.heap decl r receiver c method ∧
        ∀ n, (evaluator ((after limit? before).known source) (n + 1)).expr frame (.thisRef id line) m =
          .ok (.instance receiver) m := by
  have known := visits_known visits
  obtain ⟨-, chain, pending?, program, inside, sited, tracks⟩ := visits_scoped part visits
  have member := sited.sited ⟨id, thisName, false⟩ List.mem_cons_self
  obtain ⟨kind, nested, allowed⟩ := inside.housed _ member
  obtain ⟨inner, name, superclass?, methods, declLine, outer, between, rfl⟩ := nested.receiver (allowed.1 rfl)
  obtain ⟨r, receiver, c, method, reached, received⟩ := tracks.received
  have distance := (site_distance (known program inside) member rfl).trans (between.findIdx_this _)
  refine ⟨program, _, inner, _, outer, inside.mono part, member, rfl, between, rfl, r, receiver, c, method, reached,
    received.wider fun _ inside => inside.mono part, fun n => ?_⟩
  exact readVariable_found ⟨id, thisName, line⟩ distance reached received.receives.this

/-- On every machine of a session `this` means an instance for whose class the method around it was declared. -/
theorem receivers_descend {m : Machine} (reached : Reached limit? steps m) : Receiving limit? steps m := by
  have sound := reached_scoped reached
  refine ⟨fun r value bound => (sound.special r thisName value bound).1 rfl, fun f closure value found bound => ?_,
    fun m' reached' r there there' => ?_, sound.ordered.acyclic, fun c name present =>
      Heap.method?_of_present sound.ordered present name, fun before depth source frame id line part visits =>
      this_receives part visits⟩
  · rcases (sound.closures f closure found).2 with plain | ⟨decl, receiver, c, method, received, same⟩
    · cases plain.2.1.symm.trans bound
    · have is := received.receives.this.symm.trans bound
      exact ⟨receiver, (Option.some.inj is).symm, decl, c, method, same, received⟩
  · rcases reached.ordered reached' with onward | back
    · exact onward.heap.fixed r thisName there (Or.inl rfl)
    · exact (back.heap.fixed r thisName there' (Or.inl rfl)).symm

theorem receivers_descend_inherited :
    let steps := [Step.eval 9 "class A { m() {} } class B < A {} var f = B().m;"]
    let m := (after none steps).machine
    Reached none steps m ∧ m.heap.binding? ⟨2⟩ thisName = some (.instance ⟨0⟩) ∧
      ∃ decl c method, Received (Visited none steps) (AcceptedIn none steps) m.heap decl ⟨2⟩ ⟨0⟩ c method := by
  intro steps m
  have reached : Reached none steps m := .between (List.prefix_refl steps)
  have bound : m.heap.binding? ⟨2⟩ thisName = some (.instance ⟨0⟩) := by decide +kernel
  obtain ⟨receiver, same, received⟩ := (receivers_descend reached).frames ⟨2⟩ _ bound
  obtain rfl := Value.instance.inj same
  exact ⟨reached, bound, received⟩

/-! ### What `super` means -/

/-- What the declaration of a class with a superclass has read. -/
theorem Declared.superclass {chain : List Place} {c : Ref .classObject} {scope : Ref .frame} {name : String}
    {use : Use} {methods : List FunctionDecl} {line : Nat}
    (declared : Declared visited accepted h chain c scope (.classDecl name (some use) methods line))
    (known : ∀ program, accepted program → Sound distances program) (bound : (h.binding? scope superName).isSome) :
    ∃ classFrame made superclass, visited ⟨.stmt classFrame (.classDecl name (some use) methods line), made⟩ ∧
      readSuperclass distances classFrame line (some use) made = .ok (some superclass) made ∧
      c.index = made.heap.classes.size ∧
      h.classObject? c = some ⟨name, some superclass, methodTable scope methods⟩ ∧
      h.binding? scope superName = some (.classObject superclass) := by
  cases declared with
  | @intro program _ _ _ _ _ _ classFrame made superclass inside _ met read first is _ super =>
    cases superclass with
    | none => simp [super] at bound
    | some superclass => exact ⟨classFrame, made, superclass, met, read _ (known program inside), first, is, super⟩

/-- The search that `super` starts finds the nearest method and binds it, or there is none. -/
theorem readSuper_cases {name : String} {line : Nat} {outer inner : Ref .frame} {superclass : Ref .classObject}
    {receiver : Ref .instance} (ordered : m.heap.Ordered) (present : superclass.index < m.heap.classes.size)
    (distance : distances.get? id = some (d + 1))
    (outside : m.heap.ancestor? frame (d + 1) = some outer)
    (super : m.heap.binding? outer superName = some (.classObject superclass))
    (inside : m.heap.ancestor? frame d = some inner)
    (this : m.heap.binding? inner thisName = some (.instance receiver)) :
    (∃ owner method f m', m.heap.Inherits superclass name owner method ∧
      readSuper distances frame id name line m = .ok (.function f) m' ∧ m'.heap.Binds f method receiver) ∨
    ((∀ owner, m.heap.Reaches superclass owner → m.heap.ownMethod? name owner = none) ∧
      readSuper distances frame id name line m = .error (.fault ⟨line, .undefinedProperty name⟩) m) := by
  rw [readSuper_eq distance outside super inside this]
  rcases Heap.method?_cases ordered present name with ⟨owner, method, found, inherits⟩ | ⟨missing, none⟩
  · obtain ⟨f, m', done, binds⟩ := methodValue_binds method receiver m
    rw [found]
    exact Or.inl ⟨owner, method, f, m', inherits, done, binds⟩
  · rw [missing]
    exact Or.inr ⟨none, rfl⟩

/-- A node for a method of `super` stands in a method of a declaration of a class with a superclass. The class of
the method that the node runs in was made where that declaration ran, with the superclass that was read there.
The search for the method begins at this superclass and takes the nearest one. What is found is bound to the
instance that `this` means at the same place, which is one of a class that reaches the class of the method; and
the search fails only if no class that it comes by has the method. -/
theorem super_static {frame : Ref .frame} {name : String} {line : Nat}
    (visits : (after limit? before).Visits depth source ⟨.expr frame (.superRef id name line), m⟩) :
    let steps := before ++ [.eval depth source]
    let distances := (after limit? before).known source
    ∃ program site inner className use methods classLine outer,
      let decl := Stmt.classDecl className (some use) methods classLine
      AcceptedIn limit? steps program ∧ site ∈ Stmt.sitesAll program [] ∧ site.reference = ⟨id, superName, false⟩ ∧
      Between inner ∧ site.chain = inner ++ ⟨.receiver decl, [thisName]⟩ :: ⟨.superclass decl, [superName]⟩ :: outer ∧
      ∃ classFrame made superclass c scope receiver i,
        Visited limit? steps ⟨.stmt classFrame decl, made⟩ ∧
        readSuperclass distances classFrame classLine (some use) made = .ok (some superclass) made ∧
        c.index = made.heap.classes.size ∧
        m.heap.classObject? c = some ⟨className, some superclass, methodTable scope methods⟩ ∧
        m.heap.ancestor? frame (inner.length + 1) = some scope ∧
        m.heap.instance? receiver = some i ∧ m.heap.Reaches i.classRef c ∧
        (∀ thisId thisLine,
          distances.get? thisId = (Site.mk site.chain none ⟨thisId, thisName, false⟩).distance? →
          ∀ n, (evaluator distances (n + 1)).expr frame (.thisRef thisId thisLine) m = .ok (.instance receiver) m) ∧
        ∀ n, let result := (evaluator distances (n + 1)).expr frame (.superRef id name line) m
          (∃ owner method f m', m.heap.Inherits superclass name owner method ∧ result = .ok (.function f) m' ∧
            m'.heap.Binds f method receiver) ∨
          ((∀ owner, m.heap.Reaches superclass owner → m.heap.ownMethod? name owner = none) ∧
            result = .error (.fault ⟨line, .undefinedProperty name⟩) m) := by
  intro steps distances
  have known := visits_known visits
  obtain ⟨sound, chain, pending?, program, inside, sited, tracks⟩ := visits_scoped (List.prefix_refl steps) visits
  have member := sited.sited ⟨id, superName, false⟩ List.mem_cons_self
  obtain ⟨kind, nested, allowed⟩ := inside.housed _ member
  obtain ⟨inner, className, use, methods, classLine, outer, between, rfl⟩ := nested.superclass (allowed.2 rfl)
  obtain ⟨r, receiver, c, method, reached, received, around, bound⟩ := tracks.superclass
  obtain ⟨⟨this, -, -, i, isInstance, reaches⟩, declChain, declared⟩ := received
  obtain ⟨classFrame, made, superclass, met, read, first, isClass, super⟩ := declared.superclass known bound
  refine ⟨program, _, inner, className, use, methods, classLine, outer, inside, member, rfl, between, rfl,
    classFrame, made, superclass, c, method.scope, receiver, i, met, read, first, isClass, around, isInstance, reaches,
    fun thisId thisLine same n => ?_, fun n => ?_⟩
  · have distance := same.trans (between.findIdx_this _)
    exact readVariable_found ⟨thisId, thisName, thisLine⟩ distance reached this
  · have distance := (site_distance (known program inside) member rfl).trans (between.findIdx_super _)
    have present : superclass.index < m.heap.classes.size := by
      have link : m.heap.Extends c superclass := by rw [Heap.Extends, isClass]; rfl
      have there : c.index < m.heap.classes.size := (Array.getElem?_eq_some_iff.mp isClass).1
      exact Nat.lt_trans (sound.ordered c superclass link) there
    exact readSuper_cases sound.ordered present distance around super reached this

theorem super_static_initializer :
    let source := "class A { x() {} } class B < A { init() { super.x; } } B();"
    let x : FunctionDecl := ⟨"x", [], [], 1⟩
    let init : FunctionDecl := ⟨"init", [], [.expr (.superRef 1 "x" 1)], 1⟩
    let heap : Heap := ⟨#[⟨none, [("len", .native .len), ("push", .native .push), ("A", .classObject ⟨0⟩),
        ("B", .classObject ⟨1⟩)]⟩, ⟨some ⟨0⟩, [("super", .classObject ⟨0⟩)]⟩, ⟨some ⟨1⟩, [("this", .instance ⟨0⟩)]⟩,
        ⟨some ⟨2⟩, []⟩], #[],
      #[⟨"A", none, [("x", ⟨x, ⟨0⟩, false⟩)]⟩, ⟨"B", some ⟨0⟩, [("init", ⟨init, ⟨1⟩, true⟩)]⟩], #[⟨⟨1⟩, []⟩], #[]⟩
    let m : Machine := ⟨heap, .empty none⟩
    (after none []).Visits 9 source ⟨.expr ⟨3⟩ (.superRef 1 "x" 1), m⟩ ∧
      ∃ superclass owner method receiver f m', m.heap.Inherits superclass "x" owner method ∧
        (evaluator ((after none []).known source) 1).expr ⟨3⟩ (.superRef 1 "x" 1) m = .ok (.function f) m' ∧
        m'.heap.Binds f method receiver := by
  have known : (after none []).known "class A { x() {} } class B < A { init() { super.x; } } B();" = [(1, 2)] := by
    decide +kernel
  have program : (after none []).program "class A { x() {} } class B < A { init() { super.x; } } B();" =
      [.classDecl "A" none [⟨"x", [], [], 1⟩] 1,
        .classDecl "B" (some ⟨0, "A", 1⟩) [⟨"init", [], [.expr (.superRef 1 "x" 1)], 1⟩] 1,
        .expr (.call (.var ⟨2, "B", 1⟩) [] 1)] := rfl
  intro source x init heap m
  have visits : (after none []).Visits 9 source ⟨.expr ⟨3⟩ (.superRef 1 "x" 1), m⟩ := by
    refine ⟨by decide +kernel, fun stop => ?_⟩
    let p : Point := ⟨.expr ⟨3⟩ (.superRef 1 "x" 1), m⟩
    let classA : Stmt := .classDecl "A" none [x] 1
    let classB : Stmt := .classDecl "B" (some ⟨0, "A", 1⟩) [init] 1
    let callB : Expr := .call (.var ⟨2, "B", 1⟩) [] 1
    rw [program, known]
    change interpret (breakpoint [(1, 2)] p stop 9) [classA, classB, .expr callB] (.start none) = .error stop m
    let self := breakpoint [(1, 2)] p stop
    let m₁ : Machine := ⟨⟨#[⟨none, [("len", .native .len), ("push", .native .push), ("A", .classObject ⟨0⟩)]⟩], #[],
      #[⟨"A", none, [("x", ⟨x, ⟨0⟩, false⟩)]⟩], #[], #[]⟩, .empty none⟩
    let m₂ : Machine := ⟨⟨#[⟨none, [("len", .native .len), ("push", .native .push), ("A", .classObject ⟨0⟩),
        ("B", .classObject ⟨1⟩)]⟩, ⟨some ⟨0⟩, [("super", .classObject ⟨0⟩)]⟩], #[],
      #[⟨"A", none, [("x", ⟨x, ⟨0⟩, false⟩)]⟩, ⟨"B", some ⟨0⟩, [("init", ⟨init, ⟨1⟩, true⟩)]⟩], #[], #[]⟩, .empty none⟩
    have first : (self 9).stmt Heap.globals classA (.start none) = .ok .normal m₁ :=
      (Point.guard_other (by simp [p]) stop _ _).trans rfl
    have second : (self 9).stmt Heap.globals classB m₁ = .ok .normal m₂ :=
      (Point.guard_other (by simp [p]) stop _ _).trans rfl
    -- The call makes an instance, binds the initializer to it in frame 2 and runs it in frame 3.
    let m₃ : Machine := ⟨⟨#[⟨none, [("len", .native .len), ("push", .native .push), ("A", .classObject ⟨0⟩),
        ("B", .classObject ⟨1⟩)]⟩, ⟨some ⟨0⟩, [("super", .classObject ⟨0⟩)]⟩, ⟨some ⟨1⟩, [("this", .instance ⟨0⟩)]⟩], #[],
      heap.classes, #[⟨⟨1⟩, []⟩], #[]⟩, .empty none⟩
    have looked : (self 6).stmt ⟨3⟩ (.expr (.superRef 1 "x" 1)) m = .error stop m :=
      (Point.guard_other (by simp [p]) stop _ _).trans (bind_of_error (Point.guard_here _ _ stop _) _)
    have body : inOrder ((self 6).stmt ⟨3⟩) init.body m = .error stop m := bind_of_error looked _
    have entered : make (·.addFrame ⟨2⟩) m₃ = .ok ⟨3⟩ m := rfl
    have bound : change (bindParams ⟨3⟩ [] []) m = .ok () m := rfl
    have invoked : (self 7).invoke ⟨init, ⟨2⟩, true⟩ [] m₃ = .error stop m :=
      (Point.guard_other (by simp [p]) stop _ _).trans
        ((bind_of_ok entered _).trans ((bind_of_ok bound _).trans (bind_of_error body _)))
    have made : call (self 7).invoke (.classObject ⟨1⟩) [] 1 m₂ =
        ((self 7).invoke ⟨init, ⟨2⟩, true⟩ [] >>= fun _ => pure (.instance ⟨0⟩)) m₃ := rfl
    have callee : (self 7).expr Heap.globals (.var ⟨2, "B", 1⟩) m₂ = .ok (.classObject ⟨1⟩) m₂ :=
      (Point.guard_other (by simp [p]) stop _ _).trans rfl
    have called : (self 8).expr Heap.globals callB m₂ = .error stop m :=
      (Point.guard_other (by simp [p, callB]) stop _ _).trans
        ((bind_of_ok callee _).trans (made.trans (bind_of_error invoked _)))
    have third : (self 9).stmt Heap.globals (.expr callB) m₂ = .error stop m :=
      (Point.guard_other (by simp [p]) stop _ _).trans (bind_of_error called _)
    exact (bind_of_ok first _).trans ((bind_of_ok second _).trans (bind_of_error third _))
  refine ⟨visits, ?_⟩
  obtain ⟨program, site, inner, className, use, methods, classLine, outer, -, -, -, -, -, classFrame, made, superclass,
    c, scope, receiver, i, -, -, -, -, -, -, -, -, search⟩ := super_static visits
  rcases search 0 with ⟨owner, method, f, m', found⟩ | ⟨-, failed⟩
  · exact ⟨superclass, owner, method, receiver, f, m', found⟩
  · rw [known] at failed
    cases failed

end Lox
