import Lox.Machine.Execution
import Lox.Proofs.Syntax.Relabel

/-!
Runs and relabelings. A run does not look at ids but for their distances, and not at lines but for its
fault. So with other ids and lines in the program and in all functions on the heap, and distances to
match, a run prints the same and leaves the same values, and its fault is the same on another line.
-/

namespace Lox

/-! ### Machines -/

section Machines

variable (φ : Relabeling)

def Closure.relabel (closure : Closure) : Closure :=
  { closure with decl := closure.decl.relabel φ }

def ClassObject.relabel (made : ClassObject) : ClassObject :=
  { made with methods := made.methods.map fun entry => (entry.1, entry.2.relabel φ) }

def Heap.relabel (h : Heap) : Heap :=
  { h with
    closures := h.closures.map (Closure.relabel φ)
    classes := h.classes.map (ClassObject.relabel φ) }

def Machine.relabel (m : Machine) : Machine :=
  { m with heap := m.heap.relabel φ }

def Fault.relabel (fault : Fault) : Fault :=
  { fault with line := φ.line fault.line }

def Stop.relabel : Stop → Stop
  | .fault found => .fault (found.relabel φ)
  | .starved => .starved

/-- How a run ends, with other ids and lines. -/
def relabelEnd {α β : Type} (f : α → β) :
    EStateM.Result Stop Machine α → EStateM.Result Stop Machine β
  | .ok a m => .ok (f a) (m.relabel φ)
  | .error stop m => .error (stop.relabel φ) (m.relabel φ)

end Machines

theorem Table.get?_map {κ α β : Type} [DecidableEq κ] (f : α → β) (key : κ) (t : Table κ α) :
    Table.get? key (t.map fun entry => (entry.1, f entry.2)) = (t.get? key).map f := by
  induction t with
  | nil => rfl
  | cons entry rest ih =>
    rw [List.map_cons, Table.get?, Table.get?]
    split
    · rfl
    · exact ih

theorem Table.put_map {κ α β : Type} [DecidableEq κ] (f : α → β) (key : κ) (value : α) (t : Table κ α) :
    Table.put key (f value) (t.map fun entry => (entry.1, f entry.2)) =
      (t.put key value).map fun entry => (entry.1, f entry.2) := by
  induction t with
  | nil => rfl
  | cons entry rest ih =>
    rw [List.map_cons, Table.put, Table.put]
    split
    · rfl
    · rw [List.map_cons, ih]

/-! ### What is read from a heap -/

namespace Heap

variable (φ : Relabeling) (h : Heap)

theorem closure?_relabel (r : Ref .closure) :
    (h.relabel φ).closure? r = (h.closure? r).map (Closure.relabel φ) := by
  simp [closure?, relabel]

theorem classObject?_relabel (r : Ref .classObject) :
    (h.relabel φ).classObject? r = (h.classObject? r).map (ClassObject.relabel φ) := by
  simp [classObject?, relabel]

theorem ancestor?_relabel (r : Ref .frame) (n : Nat) : (h.relabel φ).ancestor? r n = h.ancestor? r n := by
  induction n generalizing r with
  | zero => rfl
  | succ n ih =>
    unfold ancestor?
    congr 1
    funext s
    exact ih s

theorem lineage_relabel (r : Ref .classObject) : (h.relabel φ).lineage r = h.lineage r := by
  have within (n : Nat) (r : Ref .classObject) : (h.relabel φ).lineageWithin n r = h.lineageWithin n r := by
    induction n generalizing r with
    | zero => rfl
    | succ n ih =>
      unfold lineageWithin
      rw [classObject?_relabel]
      cases h.classObject? r with
      | none => rfl
      | some made =>
        have kept : (made.relabel φ).superclass? = made.superclass? := rfl
        rw [Option.map_some, Option.bind_some, Option.bind_some, kept]
        cases made.superclass? with
        | none => rfl
        | some s => exact congrArg (r :: ·) (ih s)
  have size : (h.relabel φ).classes.size = h.classes.size := Array.size_map
  rw [lineage, lineage, size, within]

theorem ownMethod?_relabel (name : String) (r : Ref .classObject) :
    (h.relabel φ).ownMethod? name r = (h.ownMethod? name r).map (Closure.relabel φ) := by
  unfold ownMethod?
  rw [classObject?_relabel]
  cases h.classObject? r with
  | none => rfl
  | some made => exact Table.get?_map _ name made.methods

theorem method?_relabel (r : Ref .classObject) (name : String) :
    (h.relabel φ).method? r name = (h.method? r name).map (Closure.relabel φ) := by
  unfold method?
  rw [lineage_relabel]
  induction h.lineage r with
  | nil => rfl
  | cons r rest ih =>
    rw [List.findSome?_cons, List.findSome?_cons, ownMethod?_relabel]
    cases h.ownMethod? name r with
    | none => exact ih
    | some method => rfl

theorem lookup?_relabel {distances other : Distances}
    (same : ∀ id, other.get? (φ.id id) = distances.get? id) (frame : Ref .frame) (id : Nat) (name : String) :
    (h.relabel φ).lookup? other frame (φ.id id) name = h.lookup? distances frame id name := by
  unfold lookup? target?
  rw [same]
  cases distances.get? id with
  | none => rfl
  | some distance =>
    dsimp only
    rw [ancestor?_relabel]
    rfl

variable {φ}

theorem renderScalar_relabel (names : φ.KeepsNames) (v : Value) :
    (h.relabel φ).renderScalar v = h.renderScalar v := by
  cases v with
  | function r =>
    have name : ((h.closure? r).map (Closure.relabel φ)).map (·.decl.name) =
        (h.closure? r).map (·.decl.name) := by
      cases h.closure? r with
      | none => rfl
      | some closure => exact congrArg some ((FunctionDecl.relabel_name φ closure.decl).trans (names _))
    rw [renderScalar, renderScalar, closure?_relabel, name]
  | classObject r =>
    rw [renderScalar, renderScalar, classObject?_relabel]
    cases h.classObject? r <;> rfl
  | «instance» r =>
    have name : (((h.relabel φ).instance? r).bind ((h.relabel φ).classObject? ·.classRef)).map (·.name) =
        ((h.instance? r).bind (h.classObject? ·.classRef)).map (·.name) := by
      change ((h.instance? r).bind _).map _ = _
      cases h.instance? r with
      | none => rfl
      | some made =>
        change ((h.relabel φ).classObject? made.classRef).map _ = (h.classObject? made.classRef).map _
        rw [classObject?_relabel]
        cases h.classObject? made.classRef <;> rfl
    rw [renderScalar, renderScalar, name]
  | bool value => cases value <;> rfl
  | _ => rfl

theorem render_relabel (names : φ.KeepsNames) (v : Value) : (h.relabel φ).render v = h.render v := by
  have within (n : Nat) : (h.relabel φ).renderOpen n = h.renderOpen n := by
    induction n with
    | zero => rfl
    | succ n ih =>
      funext v
      cases v with
      | array r =>
        unfold renderOpen
        rw [ih]
        rfl
      | _ => exact congrArg pure (renderScalar_relabel h names _)
  unfold render
  rw [within]
  rfl

end Heap

open Run

/-! ### Rules -/

/-- With other ids and lines on the heap, a run ends as the given one does, with those. -/
def Run.Natural {α β : Type} (φ : Relabeling) (f : α → β) (x : Run α) (y : Run β) : Prop :=
  ∀ m, y (m.relabel φ) = relabelEnd φ f (x m)

namespace Run

variable {φ : Relabeling} {α α' β β' : Type} {f : α → α'} {g : β → β'}

theorem natural_pure {a : α} {b : α'} (same : b = f a) : Natural φ f (pure a) (pure b) := by
  subst same
  exact fun _ => rfl

theorem natural_starve : Natural φ f starve starve :=
  fun _ => rfl

theorem natural_fault (line : Nat) (error : RuntimeError) : Natural φ f (fault line error) (fault (φ.line line) error) :=
  fun _ => rfl

theorem natural_read {p : Heap → α} {q : Heap → α'} (same : ∀ h : Heap, q (h.relabel φ) = f (p h)) :
    Natural φ f (read p) (read q) := by
  intro m
  change EStateM.Result.ok (q (m.heap.relabel φ)) (m.relabel φ) = _
  rw [same]
  rfl

theorem natural_change {p q : Heap → Heap} (same : ∀ h : Heap, q (h.relabel φ) = (p h).relabel φ) :
    Natural φ id (change p) (change q) := by
  intro m
  change EStateM.Result.ok () { m with heap := q (m.heap.relabel φ) } = _
  rw [same]
  rfl

theorem natural_make {p : Heap → α × Heap} {q : Heap → α' × Heap}
    (same : ∀ h : Heap, q (h.relabel φ) = (f (p h).1, (p h).2.relabel φ)) : Natural φ f (make p) (make q) := by
  intro m
  change EStateM.Result.ok (q (m.heap.relabel φ)).1 { m with heap := (q (m.heap.relabel φ)).2 } = _
  rw [same]
  rfl

/-- What does not show ids and lines is read alike. -/
theorem natural_look {p : Heap → α} (same : ∀ h : Heap, p (h.relabel φ) = p h) : Natural φ id (read p) (read p) :=
  natural_read same

theorem natural_assign (frame : Ref .frame) (name : String) (value : Value) :
    Natural φ id (change (·.bind frame name value)) (change (·.bind frame name value)) :=
  natural_change fun _ => rfl

theorem natural_addFrame (parent : Ref .frame) : Natural φ id (make (·.addFrame parent)) (make (·.addFrame parent)) :=
  natural_make fun _ => rfl

theorem Natural.bind {x : Run α} {y : Run α'} {k : α → Run β} {l : α' → Run β'} (first : Natural φ f x y)
    (second : ∀ a, Natural φ g (k a) (l (f a))) : Natural φ g (x >>= k) (y >>= l) := by
  intro m
  change EStateM.bind y l (m.relabel φ) = relabelEnd φ g (EStateM.bind x k m)
  unfold EStateM.bind
  rw [first m]
  cases x m with
  | ok a m' => exact second a m'
  | error stop m' => rfl

theorem natural_ofExcept (line : Nat) (a : Except RuntimeError α) :
    Natural φ id (ofExcept line a) (ofExcept (φ.line line) a) := by
  cases a with
  | error error => exact natural_fault line error
  | ok a => exact natural_pure rfl

theorem natural_ofOption (line : Nat) (error : RuntimeError) {a? : Option α} {b? : Option α'} (same : b? = a?.map f) :
    Natural φ f (ofOption line error a?) (ofOption (φ.line line) error b?) := by
  subst same
  cases a? with
  | none => exact natural_fault line error
  | some a => exact natural_pure rfl

theorem natural_printLine (line : Nat) (text : String) :
    Natural φ id (printLine line text) (printLine (φ.line line) text) := by
  intro m
  unfold printLine
  change (if (m.output.write (text ++ "\n").toUTF8).1 then _ else _) = _
  dsimp only
  split
  · rfl
  · rfl

theorem natural_each {p : α → Run β} {q : α' → Run β'} (alike : ∀ a, Natural φ g (p a) (q (f a))) (as : List α) :
    Natural φ (List.map g) (each p as) (each q (as.map f)) := by
  induction as with
  | nil => exact natural_pure rfl
  | cons a as ih => exact (alike a).bind fun _ => ih.bind fun _ => natural_pure rfl

theorem natural_inOrder {p : α → Run Flow} {q : α' → Run Flow} (alike : ∀ a, Natural φ id (p a) (q (f a)))
    (as : List α) : Natural φ id (inOrder p as) (inOrder q (as.map f)) := by
  induction as with
  | nil => exact natural_pure rfl
  | cons a as ih =>
    refine (alike a).bind fun flow => ?_
    cases flow with
    | normal => exact ih
    | _ => exact natural_pure rfl

theorem natural_rounds {test test' : Run Bool} {body body' : Run Flow} (tests : Natural φ id test test')
    (bodies : Natural φ id body body') (n : Nat) : Natural φ id (rounds n test body) (rounds n test' body') := by
  induction n with
  | zero => exact natural_starve
  | succ n ih =>
    refine tests.bind fun goesOn => ?_
    cases goesOn with
    | false => exact natural_pure rfl
    | true =>
      refine bodies.bind fun flow => ?_
      cases flow with
      | normal => exact ih
      | continued => exact ih
      | broke => exact natural_pure rfl
      | returned value => exact natural_pure rfl

end Run

/-! ### Operations -/

/-- Distances that match other ids. -/
def Relabeling.Matches (φ : Relabeling) (distances other : Distances) : Prop :=
  ∀ id, other.get? (φ.id id) = distances.get? id

section Operations

variable {φ : Relabeling} {distances other : Distances}

theorem readVariable_natural (names : φ.KeepsNames) (same : φ.Matches distances other) (frame : Ref .frame)
    (use : Use) :
    Run.Natural φ id (readVariable distances frame use) (readVariable other frame (use.relabel φ)) := by
  have name : (use.relabel φ).name = use.name := names use.name
  unfold readVariable
  rw [name]
  have lookup (h : Heap) : (h.relabel φ).lookup? other frame (φ.id use.id) use.name =
      id (h.lookup? distances frame use.id use.name) :=
    h.lookup?_relabel φ same frame use.id use.name
  exact (natural_read lookup).bind fun value? => natural_ofOption _ _ (by simp)

theorem target?_relabel (same : φ.Matches distances other) (h : Heap) (frame : Ref .frame) (id : Nat) :
    (h.relabel φ).target? other frame (φ.id id) = h.target? distances frame id := by
  unfold Heap.target?
  rw [same]
  cases distances.get? id with
  | none => rfl
  | some distance => exact h.ancestor?_relabel φ frame distance

theorem assignVariable_natural (names : φ.KeepsNames) (same : φ.Matches distances other) (frame : Ref .frame)
    (use : Use) (value : Value) :
    Run.Natural φ id (assignVariable distances frame use value) (assignVariable other frame (use.relabel φ) value) := by
  have name : (use.relabel φ).name = use.name := names use.name
  unfold assignVariable
  rw [name]
  refine (natural_read (f := fun r? => r?) fun h => ?_).bind fun target? =>
    (natural_ofOption (f := fun r => r) _ _ (by simp)).bind fun target =>
      (natural_assign target use.name value).bind fun _ => natural_pure rfl
  have target := target?_relabel same h frame use.id
  change ((h.relabel φ).target? other frame (φ.id use.id)).filter _ = _
  rw [target]
  rfl

theorem bindMethod_natural (method : Closure) (receiver : Ref .instance) :
    Run.Natural φ (Closure.relabel φ) (bindMethod method receiver) (bindMethod (method.relabel φ) receiver) :=
  (natural_addFrame method.scope).bind fun frame =>
    (natural_assign frame thisName (.instance receiver)).bind fun _ => natural_pure rfl

theorem addClosure_relabel (closure : Closure) (h : Heap) :
    (h.relabel φ).addClosure (closure.relabel φ) =
      (id (h.addClosure closure).1, (h.addClosure closure).2.relabel φ) := by
  simp [Heap.addClosure, Heap.relabel]

theorem methodValue_natural (method : Closure) (receiver : Ref .instance) :
    Run.Natural φ id (methodValue method receiver) (methodValue (method.relabel φ) receiver) :=
  (bindMethod_natural method receiver).bind fun bound =>
    (natural_make (f := id) (addClosure_relabel bound)).bind fun _ => natural_pure rfl

theorem readProperty_natural (receiver : Ref .instance) (name : String) (line : Nat) :
    Run.Natural φ id (readProperty receiver name line) (readProperty receiver name (φ.line line)) := by
  refine (natural_look (p := fun h => (h.instance? receiver).bind (·.fields.get? name)) fun _ => rfl).bind
    fun value? => ?_
  cases value? with
  | some value => exact natural_pure rfl
  | none =>
    refine (natural_read (f := Option.map (Closure.relabel φ)) fun h => ?_).bind fun method? =>
      (natural_ofOption _ _ rfl).bind fun method => methodValue_natural method receiver
    change ((h.instance? receiver).bind fun i => (h.relabel φ).method? i.classRef name) = _
    cases h.instance? receiver with
    | none => rfl
    | some made => exact h.method?_relabel φ made.classRef name

theorem readSuper_natural (same : φ.Matches distances other) (frame : Ref .frame) (id : Nat) (name : String)
    (line : Nat) :
    Run.Natural φ (fun v => v) (readSuper distances frame id name line)
      (readSuper other frame (φ.id id) name (φ.line line)) := by
  unfold readSuper
  rw [same]
  split
  · next distance found =>
    refine (natural_read (f := fun v? => v?) fun h => ?_).bind fun value? => ?_
    · rw [h.ancestor?_relabel]
      rfl
    split
    · next superclass =>
      refine (natural_read (f := fun v? => v?) fun h => ?_).bind fun value? => ?_
      · rw [h.ancestor?_relabel]
        rfl
      split
      · next receiver =>
        exact (natural_read (f := Option.map (Closure.relabel φ)) fun h => h.method?_relabel φ superclass name).bind
          fun method? => (natural_ofOption _ _ rfl).bind fun method => methodValue_natural method receiver
      · exact natural_fault _ _
    · exact natural_fault _ _
  · exact natural_fault _ _

theorem locate_natural (sequence index : Value) (line : Nat) :
    Run.Natural φ id (locate sequence index line) (locate sequence index (φ.line line)) :=
  (natural_ofOption (f := id) _ _ (by simp)).bind fun array =>
    (natural_look (p := fun h => (h.elements array).size) fun _ => rfl).bind fun _ =>
      (natural_ofExcept _ _).bind fun _ => natural_pure rfl

theorem readElement_natural (sequence index : Value) (line : Nat) :
    Run.Natural φ id (readElement sequence index line) (readElement sequence index (φ.line line)) :=
  (locate_natural sequence index line).bind fun place =>
    natural_look (p := fun h => ((h.elements place.1)[place.2]?).getD .nil) fun _ => rfl

theorem assignElement_natural (sequence index value : Value) (line : Nat) :
    Run.Natural φ id (assignElement sequence index value line)
      (assignElement sequence index value (φ.line line)) :=
  (locate_natural sequence index line).bind fun place =>
    (natural_change (p := (·.setElement place.1 place.2 value)) fun _ => rfl).bind fun _ => natural_pure rfl

theorem native_natural (native : Native) (arguments : List Value) (line : Nat) :
    Run.Natural φ id (native.run arguments line) (native.run arguments (φ.line line)) := by
  unfold Native.run
  split
  · next r rest =>
    exact (natural_look (p := fun h => (h.elements r).size) fun _ => rfl).bind fun _ => natural_pure rfl
  · next r value rest =>
    exact (natural_change (p := (·.pushElement r value)) fun _ => rfl).bind fun _ =>
      (natural_look (p := fun h => (h.elements r).size) fun _ => rfl).bind fun _ => natural_pure rfl
  · exact natural_fault _ _

theorem checkArity_natural (expected found line : Nat) :
    Run.Natural φ id (checkArity expected found line) (checkArity expected found (φ.line line)) := by
  unfold checkArity
  split
  · exact natural_pure rfl
  · exact natural_fault _ _

theorem Closure.relabel_arity (closure : Closure) :
    (closure.relabel φ).decl.params.length = closure.decl.params.length := by
  obtain ⟨⟨name, params, body, line⟩, scope, isInitializer⟩ := closure
  exact List.length_map _

theorem call_natural {invoke invoke' : Closure → List Value → Run Value}
    (alike : ∀ closure arguments, Run.Natural φ id (invoke closure arguments) (invoke' (closure.relabel φ) arguments))
    (callee : Value) (arguments : List Value) (line : Nat) :
    Run.Natural φ id (call invoke callee arguments line) (call invoke' callee arguments (φ.line line)) := by
  unfold call
  split
  · next r =>
    refine (natural_read (f := Option.map (Closure.relabel φ)) fun h => h.closure?_relabel φ r).bind fun closure? =>
      (natural_ofOption _ _ rfl).bind fun closure => ?_
    rw [closure.relabel_arity]
    exact (checkArity_natural _ _ _).bind fun _ => alike closure arguments
  · next native => exact (checkArity_natural _ _ _).bind fun _ => native_natural native arguments line
  · next r =>
    refine (natural_read (f := Option.map (Closure.relabel φ)) fun h => h.method?_relabel φ r initName).bind
      fun initializer? => ?_
    have adds : Run.Natural φ id (make (·.addInstance r)) (make (·.addInstance r)) := natural_make fun _ => rfl
    cases initializer? with
    | none => exact (checkArity_natural _ _ _).bind fun _ => adds.bind fun _ => natural_pure rfl
    | some initializer =>
      dsimp only [Option.map_some]
      rw [initializer.relabel_arity]
      exact (checkArity_natural _ _ _).bind fun _ => adds.bind fun receiver =>
        (bindMethod_natural initializer receiver).bind fun bound => (alike bound arguments).bind fun _ =>
        natural_pure rfl
  · exact natural_fault _ _

/-! ### Classes -/

theorem bindParams_relabel (frame : Ref .frame) (params : List String) (arguments : List Value) (h : Heap) :
    bindParams frame params arguments (h.relabel φ) = (bindParams frame params arguments h).relabel φ := by
  unfold bindParams
  induction params.zip arguments generalizing h with
  | nil => rfl
  | cons p rest ih => exact ih (h.bind frame p.1 p.2)

theorem methodTable_relabel (names : φ.KeepsNames) (scope : Ref .frame) (methods : List FunctionDecl) :
    methodTable scope (FunctionDecl.relabelAll φ methods) =
      (methodTable scope methods).map fun entry => (entry.1, entry.2.relabel φ) := by
  have onto (t : Table String Closure) :
      (FunctionDecl.relabelAll φ methods).foldl
        (fun t m => Table.put m.name ⟨m, scope, m.name = initName⟩ t) (t.map fun entry => (entry.1, entry.2.relabel φ)) =
      (methods.foldl (fun t m => t.put m.name ⟨m, scope, m.name = initName⟩) t).map
        fun entry => (entry.1, entry.2.relabel φ) := by
    induction methods generalizing t with
    | nil => rfl
    | cons method methods ih =>
      have name : (method.relabel φ).name = method.name := (FunctionDecl.relabel_name φ method).trans (names _)
      rw [FunctionDecl.relabelAll, List.foldl_cons, List.foldl_cons, name, ← ih]
      congr 1
      exact Table.put_map (Closure.relabel φ) method.name ⟨method, scope, method.name = initName⟩ t
  exact onto []

theorem readSuperclass_natural (names : φ.KeepsNames) (same : φ.Matches distances other) (frame : Ref .frame)
    (line : Nat) (superclass? : Option Use) :
    Run.Natural φ id (readSuperclass distances frame line superclass?)
      (readSuperclass other frame (φ.line line) (superclass?.map (Use.relabel φ))) := by
  cases superclass? with
  | none => exact natural_pure rfl
  | some use =>
    refine (readVariable_natural names same frame use).bind fun value => ?_
    cases value with
    | classObject r => exact natural_pure rfl
    | _ => exact natural_fault _ _

theorem methodScope_natural (frame : Ref .frame) (superclass? : Option (Ref .classObject)) :
    Run.Natural φ id (methodScope frame superclass?) (methodScope frame superclass?) := by
  cases superclass? with
  | none => exact natural_pure rfl
  | some superclass =>
    exact (natural_addFrame frame).bind fun scope =>
      (natural_assign scope superName (.classObject superclass)).bind fun _ => natural_pure rfl

theorem addClass_relabel (made : ClassObject) (h : Heap) :
    (h.relabel φ).addClass (made.relabel φ) = (id (h.addClass made).1, (h.addClass made).2.relabel φ) := by
  simp [Heap.addClass, Heap.relabel]

theorem declareClass_natural (names : φ.KeepsNames) (same : φ.Matches distances other) (frame : Ref .frame)
    (name : String) (superclass? : Option Use) (methods : List FunctionDecl) (line : Nat) :
    Run.Natural φ id (declareClass distances frame name superclass? methods line)
      (declareClass other frame name (superclass?.map (Use.relabel φ)) (FunctionDecl.relabelAll φ methods)
        (φ.line line)) := by
  refine (readSuperclass_natural names same frame line superclass?).bind fun superclass? => ?_
  refine (natural_assign frame name .nil).bind fun _ => (methodScope_natural frame superclass?).bind fun scope => ?_
  dsimp only [id]
  rw [methodTable_relabel names]
  exact (natural_make (f := id) (addClass_relabel ⟨name, superclass?, methodTable scope methods⟩)).bind
    fun made => natural_assign frame name (.classObject made)

end Operations

/-! ### Expressions and statements -/

/-- An evaluator runs what has other ids and lines as another one runs the given. -/
structure Evaluator.Natural (φ : Relabeling) (given other : Evaluator) : Prop where
  expr : ∀ frame e, Run.Natural φ id (given.expr frame e) (other.expr frame (e.relabel φ))
  stmt : ∀ frame s, Run.Natural φ id (given.stmt frame s) (other.stmt frame (s.relabel φ))
  invoke : ∀ closure arguments,
    Run.Natural φ id (given.invoke closure arguments) (other.invoke (closure.relabel φ) arguments)

namespace Evaluator

variable {φ : Relabeling} {self other : Evaluator} {distances known : Distances} {frame : Ref .frame}

theorem test_natural (alike : self.Natural φ other) (e : Expr) :
    Run.Natural φ id (self.test frame e) (other.test frame (e.relabel φ)) :=
  (alike.expr frame e).bind fun _ => natural_pure rfl

theorem exprOrNil_natural (alike : self.Natural φ other) (e? : Option Expr) :
    Run.Natural φ id (self.exprOrNil frame e?) (other.exprOrNil frame (e?.map (Expr.relabel φ))) := by
  cases e? with
  | none => exact natural_pure rfl
  | some e => exact alike.expr frame e

theorem testOrTrue_natural (alike : self.Natural φ other) (e? : Option Expr) :
    Run.Natural φ id (self.testOrTrue frame e?) (other.testOrTrue frame (e?.map (Expr.relabel φ))) := by
  cases e? with
  | none => exact natural_pure rfl
  | some e => exact test_natural alike e

theorem relabelAll_eq_map (es : List Expr) : Expr.relabelAll φ es = es.map (Expr.relabel φ) := by
  induction es with
  | nil => rfl
  | cons e es ih => rw [Expr.relabelAll, ih, List.map_cons]

theorem stmts_relabelAll_eq_map (ss : List Stmt) : Stmt.relabelAll φ ss = ss.map (Stmt.relabel φ) := by
  induction ss with
  | nil => rfl
  | cons s ss ih => rw [Stmt.relabelAll, ih, List.map_cons]

theorem each_natural (alike : self.Natural φ other) (es : List Expr) :
    Run.Natural φ id (each (self.expr frame) es) (each (other.expr frame) (Expr.relabelAll φ es)) := by
  have all := natural_each (g := id) (alike.expr frame) es
  rwa [← relabelAll_eq_map, List.map_id_fun] at all

theorem evalExpr_natural (names : φ.KeepsNames) (same : φ.Matches distances known) (alike : self.Natural φ other)
    (e : Expr) : Run.Natural φ id (self.evalExpr distances frame e) (other.evalExpr known frame (e.relabel φ)) := by
  cases e with
  | literal value => exact natural_pure rfl
  | group inner => exact alike.expr frame inner
  | unary op operand line => exact (alike.expr frame operand).bind fun _ => natural_ofExcept _ _
  | binary op left right line =>
    refine (alike.expr frame left).bind fun l => ?_
    change Run.Natural φ id (if op.settledBy l then _ else _) (if op.settledBy l then _ else _)
    split
    · exact natural_pure rfl
    · exact (alike.expr frame right).bind fun _ => natural_ofExcept _ _
  | conditional test consequent alternative =>
    refine (test_natural alike test).bind fun goesOn => ?_
    cases goesOn with
    | true => exact alike.expr frame consequent
    | false => exact alike.expr frame alternative
  | var use => exact readVariable_natural names same frame use
  | assign target value =>
    exact (alike.expr frame value).bind fun v => assignVariable_natural names same frame target v
  | thisRef id line =>
    have reads := readVariable_natural names same frame ⟨id, thisName, line⟩
    rwa [Use.relabel, names] at reads
  | superRef id method line =>
    rw [Expr.relabel, names]
    exact readSuper_natural same frame id method line
  | call callee arguments line =>
    exact (alike.expr frame callee).bind fun f => (each_natural alike arguments).bind fun vs =>
      call_natural alike.invoke f vs line
  | field object name line =>
    rw [Expr.relabel, names]
    exact (alike.expr frame object).bind fun v => (natural_ofOption (f := id) _ _ (by simp)).bind fun receiver =>
      readProperty_natural receiver name line
  | setField object name value line =>
    rw [Expr.relabel, names]
    exact (alike.expr frame object).bind fun v => (natural_ofOption (f := id) _ _ (by simp)).bind fun receiver =>
      (alike.expr frame value).bind fun w =>
      (natural_change (p := (·.setField receiver name w)) fun _ => rfl).bind fun _ => natural_pure rfl
  | array elements =>
    exact (each_natural alike elements).bind fun vs =>
      (natural_make (f := id) (p := (·.addArray vs.toArray)) fun _ => rfl).bind fun _ => natural_pure rfl
  | element sequence index line =>
    exact (alike.expr frame sequence).bind fun s => (alike.expr frame index).bind fun i =>
      readElement_natural s i line
  | setElement sequence index value line =>
    exact (alike.expr frame sequence).bind fun s => (alike.expr frame index).bind fun i =>
      (alike.expr frame value).bind fun v => assignElement_natural s i v line

theorem textsOf_natural (names : φ.KeepsNames) (alike : self.Natural φ other) (items : List Expr) :
    Run.Natural φ id (each (self.textOf frame) items) (each (other.textOf frame) (Expr.relabelAll φ items)) := by
  have text (e : Expr) : Run.Natural φ id (self.textOf frame e) (other.textOf frame (e.relabel φ)) :=
    (alike.expr frame e).bind fun v => natural_look fun h => h.render_relabel names v
  have all := natural_each text items
  rwa [← relabelAll_eq_map, List.map_id_fun] at all

theorem body_natural (alike : self.Natural φ other) (body : List Stmt) :
    Run.Natural φ id (inOrder (self.stmt frame) body) (inOrder (other.stmt frame) (Stmt.relabelAll φ body)) := by
  rw [stmts_relabelAll_eq_map]
  exact natural_inOrder (alike.stmt frame) body

theorem execRound_natural (alike : self.Natural φ other) (body : Stmt) (step? : Option Expr) :
    Run.Natural φ id (self.execRound frame body step?)
      (other.execRound frame (body.relabel φ) (step?.map (Expr.relabel φ))) := by
  refine (alike.stmt frame body).bind fun flow => ?_
  cases flow with
  | broke => exact natural_pure rfl
  | returned value => exact natural_pure rfl
  | normal => exact (exprOrNil_natural alike step?).bind fun _ => natural_pure rfl
  | continued => exact (exprOrNil_natural alike step?).bind fun _ => natural_pure rfl

theorem execInitial_natural (alike : self.Natural φ other) (initial? : Option Stmt) :
    Run.Natural φ id (self.execInitial frame initial?)
      (other.execInitial frame (initial?.map (Stmt.relabel φ))) := by
  cases initial? with
  | none => exact natural_pure rfl
  | some initial => exact (alike.stmt frame initial).bind fun _ => natural_pure rfl

theorem execStmt_natural (names : φ.KeepsNames) (same : φ.Matches distances known) (alike : self.Natural φ other)
    (n : Nat) (s : Stmt) :
    Run.Natural φ id (self.execStmt distances n frame s) (other.execStmt known n frame (s.relabel φ)) := by
  cases s with
  | expr value => exact (alike.expr frame value).bind fun _ => natural_pure rfl
  | print items line =>
    exact (textsOf_natural names alike items).bind fun _ => (natural_printLine _ _).bind fun _ => natural_pure rfl
  | varDecl name initial? line =>
    rw [Stmt.relabel, names]
    exact (exprOrNil_natural alike initial?).bind fun v => (natural_assign frame name v).bind fun _ =>
      natural_pure rfl
  | block body => exact (natural_addFrame frame).bind fun _ => body_natural alike body
  | ifElse test consequent alternative? =>
    rw [Stmt.ifElse_relabel]
    refine (test_natural alike test).bind fun goesOn => ?_
    cases goesOn with
    | true => exact alike.stmt frame consequent
    | false =>
      cases alternative? with
      | none => exact natural_pure rfl
      | some alternative => exact alike.stmt frame alternative
  | whileLoop test body => exact natural_rounds (test_natural alike test) (alike.stmt frame body) n
  | forLoop initial? test? step? body =>
    rw [Stmt.forLoop_relabel]
    exact (natural_addFrame frame).bind fun _ => (execInitial_natural alike initial?).bind fun _ =>
      natural_rounds (testOrTrue_natural alike test?) (execRound_natural alike body step?) n
  | breakLoop => exact natural_pure rfl
  | continueLoop => exact natural_pure rfl
  | funDecl decl =>
    have name : (decl.relabel φ).name = decl.name := (FunctionDecl.relabel_name φ decl).trans (names _)
    rw [Stmt.relabel, execStmt, execStmt, name]
    exact (natural_make (f := id) (addClosure_relabel ⟨decl, frame, false⟩)).bind fun r =>
      (natural_assign frame decl.name (.function r)).bind fun _ => natural_pure rfl
  | returnValue value? line => exact (exprOrNil_natural alike value?).bind fun _ => natural_pure rfl
  | classDecl name superclass? methods line =>
    rw [Stmt.relabel, names]
    exact (declareClass_natural names same frame name superclass? methods line).bind fun _ => natural_pure rfl

theorem invokeClosure_natural (names : φ.KeepsNames) (alike : self.Natural φ other) (closure : Closure)
    (arguments : List Value) :
    Run.Natural φ id (self.invokeClosure closure arguments) (other.invokeClosure (closure.relabel φ) arguments) := by
  obtain ⟨⟨name, params, body, line⟩, scope, isInitializer⟩ := closure
  have same : params.map φ.name = params := List.map_id'' names params
  refine (natural_addFrame scope).bind fun frame => ?_
  refine (natural_change (p := bindParams frame params arguments) fun h => ?_).bind fun _ => ?_
  · change bindParams frame (params.map φ.name) arguments _ = _
    rw [same]
    exact bindParams_relabel frame params arguments h
  refine (body_natural alike body).bind fun flow => ?_
  cases isInitializer with
  | true =>
    exact (natural_look (p := (·.binding? scope thisName)) fun _ => rfl).bind fun _ => natural_pure rfl
  | false => cases flow <;> exact natural_pure rfl

end Evaluator

variable {φ : Relabeling} {distances known : Distances}

theorem evaluator_natural (names : φ.KeepsNames) (same : φ.Matches distances known) (n : Nat) :
    (evaluator distances n).Natural φ (evaluator known n) := by
  induction n with
  | zero => exact ⟨fun _ _ => natural_starve, fun _ _ => natural_starve, fun _ _ => natural_starve⟩
  | succ n ih =>
    exact ⟨fun _ e => Evaluator.evalExpr_natural names same ih e,
      fun _ s => Evaluator.execStmt_natural names same ih n s,
      fun closure arguments => Evaluator.invokeClosure_natural names ih closure arguments⟩

/-- A program with other ids and lines runs as the given one does, to a fault on another line if to any. -/
theorem interpret_natural (names : φ.KeepsNames) (same : φ.Matches distances known) (n : Nat)
    (program : List Stmt) :
    Run.Natural φ id (interpret (evaluator distances n) program)
      (interpret (evaluator known n) (Stmt.relabelAll φ program)) := by
  induction program with
  | nil => exact natural_pure rfl
  | cons s rest ih => exact ((evaluator_natural names same n).stmt Heap.globals s).bind fun _ => ih

end Lox
