import Lox.Proofs.Machine.Breakpoints
import Lox.Proofs.Machine.Persistence
import Lox.Proofs.Scope.Places
import Lox.Proofs.Scope.Sources

/-!
Frames and scopes. A frame is an instance of the scope for which it was made; a frame tracks the scopes
around a place of a program if it and the frames around it are instances of them, one by one, and bind
the names that are declared up to there. Functions and methods on a heap remember frames that track the
scopes around their declarations. A frame that binds `this` does so for a method of a class that the class
of the instance reaches.
-/

namespace Lox

/-! ### Instances of scopes -/

/-- The methods that a statement declares. -/
def Stmt.methods : Stmt → List FunctionDecl
  | .classDecl _ _ methods _ => methods
  | _ => []

/-- Whether a frame was made for a scope at a point that counts. A block, a loop, a call and a class with
a superclass make the next frame of their machine; a method has a frame of its own in which it is bound. -/
def InstanceOf (visited : Point → Prop) : ScopeSite → Ref .frame → Prop
  | .stmt s, r => ∃ frame m, visited ⟨.stmt frame s, m⟩ ∧ r = (m.heap.addFrame frame).1
  | .superclass decl, r => ∃ frame m, visited ⟨.stmt frame decl, m⟩ ∧ r = (m.heap.addFrame frame).1
  | .function decl, r => ∃ closure arguments m, visited ⟨.invoke closure arguments, m⟩ ∧ closure.decl = decl ∧
      r = (m.heap.addFrame closure.scope).1
  | .receiver decl, r => ∃ closure arguments m, visited ⟨.invoke closure arguments, m⟩ ∧
      closure.decl ∈ decl.methods ∧ r = closure.scope

/-! ### Classes and their methods -/

/-- A frame in which neither an instance nor a superclass is bound. -/
def Heap.Plain (h : Heap) (r : Ref .frame) : Prop :=
  (h.frame? r).isSome ∧ h.binding? r thisName = none ∧ h.binding? r superName = none

/-- A class was made by running its declaration at a point that counts: it has the superclass that was read
there and the methods that are declared, in a frame that binds the superclass if there is one. -/
inductive Declared (visited : Point → Prop) (accepted : List Stmt → Prop) (h : Heap) (chain : List Place)
    (c : Ref .classObject) (scope : Ref .frame) : Stmt → Prop
  | intro {program inLoop inFunction name superclass? methods line frame m superclass} : accepted program →
    Stands program chain inLoop inFunction (.stmt (.classDecl name superclass? methods line)) →
    visited ⟨.stmt frame (.classDecl name superclass? methods line), m⟩ →
    (∀ distances, Sound distances program →
      readSuperclass distances frame line superclass? m = .ok superclass m) →
    c.index = m.heap.classes.size →
    h.classObject? c = some ⟨name, superclass, methodTable scope methods⟩ →
    (h.frame? scope).isSome → h.binding? scope superName = superclass.map .classObject →
    Declared visited accepted h chain c scope (.classDecl name superclass? methods line)

/-- A frame binds `this` for a method, within the frame of the methods of its class, to an instance whose
class has the method or inherits from the class that has it. -/
structure Heap.Receives (h : Heap) (r : Ref .frame) (receiver : Ref .instance) (c : Ref .classObject)
    (method : Closure) : Prop where
  this : h.binding? r thisName = some (.instance receiver)
  outside : (h.frame? r).bind (·.parent?) = some method.scope
  own : ∃ name, h.ownMethod? name c = some method
  descends : ∃ i, h.instance? receiver = some i ∧ h.Reaches i.classRef c

/-- The same for a method of a class that a declaration has made. -/
structure Received (visited : Point → Prop) (accepted : List Stmt → Prop) (h : Heap) (decl : Stmt) (r : Ref .frame)
    (receiver : Ref .instance) (c : Ref .classObject) (method : Closure) : Prop where
  receives : h.Receives r receiver c method
  declared : ∃ chain, Declared visited accepted h chain c method.scope decl

section Classes

variable {visited : Point → Prop} {accepted : List Stmt → Prop} {h h' : Heap} {r scope : Ref .frame}
variable {receiver : Ref .instance} {c : Ref .classObject} {method : Closure} {chain : List Place} {decl : Stmt}

theorem Heap.Plain.mono (plain : h.Plain r) (grows : h.Grows h') : h'.Plain r := by
  obtain ⟨there, this, super⟩ := plain
  exact ⟨grows.frames.present there, (grows.fixed r _ there (Or.inl rfl)).trans this,
    (grows.fixed r _ there (Or.inr rfl)).trans super⟩

theorem Heap.Receives.mono (receives : h.Receives r receiver c method) (grows : h.Grows h') :
    h'.Receives r receiver c method := by
  obtain ⟨this, outside, ⟨name, own⟩, i, found, reaches⟩ := receives
  obtain ⟨i', found', same, -⟩ := grows.instances receiver i found
  exact ⟨grows.this this, grows.frames.parent outside, ⟨name, grows.ownMethod? own⟩, i', found',
    same ▸ grows.reaches reaches⟩

theorem Declared.mono (declared : Declared visited accepted h chain c scope decl) (grows : h.Grows h') :
    Declared visited accepted h' chain c scope decl := by
  obtain ⟨inside, stands, met, read, first, made, there, super⟩ := declared
  exact ⟨inside, stands, met, read, first, grows.classes c _ made, grows.frames.present there,
    (grows.fixed scope _ there (Or.inr rfl)).trans super⟩

theorem Received.mono (received : Received visited accepted h decl r receiver c method) (grows : h.Grows h') :
    Received visited accepted h' decl r receiver c method := by
  obtain ⟨receives, chain, declared⟩ := received
  exact ⟨receives.mono grows, chain, declared.mono grows⟩

end Classes

/-! ### Frames that track scopes -/

/-- What the frame of a scope is bound to have: that of a bound method has a receiver. -/
def Seated (visited : Point → Prop) (accepted : List Stmt → Prop) (h : Heap) : ScopeSite → Ref .frame → Prop
  | .stmt _, r => h.Plain r
  | .function _, r => h.Plain r
  | .superclass _, _ => True
  | .receiver decl, r => ∃ receiver c method, Received visited accepted h decl r receiver c method

/-- Whether a frame and those around it are instances of some scopes, with their names bound. -/
def Tracks (visited : Point → Prop) (accepted : List Stmt → Prop) (h : Heap) : Ref .frame → List Place → Prop
  | r, [] => r = Heap.globals
  | r, p :: chain =>
    InstanceOf visited p.scope r ∧ Seated visited accepted h p.scope r ∧
    (∀ name ∈ p.names, (h.binding? r name).isSome) ∧
    ∃ around, (h.frame? r).bind (·.parent?) = some around ∧ Tracks visited accepted h around chain

section Tracks

variable {visited : Point → Prop} {accepted : List Stmt → Prop} {h h' : Heap} {r : Ref .frame} {chain : List Place}

theorem Seated.mono {scope : ScopeSite} (seated : Seated visited accepted h scope r) (grows : h.Grows h') :
    Seated visited accepted h' scope r := by
  cases scope with
  | stmt s => exact Heap.Plain.mono seated grows
  | function decl => exact Heap.Plain.mono seated grows
  | superclass decl => trivial
  | receiver decl =>
    obtain ⟨receiver, c, method, received⟩ := seated
    exact ⟨receiver, c, method, received.mono grows⟩

theorem seated_plain {scope : ScopeSite} (plain : scope.Plain) :
    Seated visited accepted h scope r ↔ h.Plain r := by
  cases scope with
  | stmt s => exact Iff.rfl
  | function decl => exact Iff.rfl
  | superclass decl => cases plain
  | receiver decl => cases plain

theorem Tracks.mono (tracks : Tracks visited accepted h r chain) (grows : h.Grows h') :
    Tracks visited accepted h' r chain := by
  induction chain generalizing r with
  | nil => exact tracks
  | cons p chain ih =>
    obtain ⟨made, seated, bound, around, parent, outside⟩ := tracks
    exact ⟨made, seated.mono grows, fun name member => grows.frames.binding (bound name member), around,
      grows.frames.parent parent, ih outside⟩

theorem Tracks.ancestor {d : Nat} {p : Place} (tracks : Tracks visited accepted h r chain)
    (found : chain[d]? = some p) :
    ∃ target, h.ancestor? r d = some target ∧ InstanceOf visited p.scope target ∧
      Seated visited accepted h p.scope target ∧ ∀ name ∈ p.names, (h.binding? target name).isSome := by
  induction chain generalizing r d with
  | nil => cases found
  | cons q chain ih =>
    obtain ⟨made, seated, bound, around, parent, outside⟩ := tracks
    cases d with
    | zero =>
      obtain rfl := Option.some.inj found
      exact ⟨r, rfl, made, seated, bound⟩
    | succ d =>
      obtain ⟨target, reached, rest⟩ := ih outside found
      refine ⟨target, ?_, rest⟩
      rw [Heap.ancestor?, parent]
      exact reached

theorem Tracks.declare (tracks : Tracks visited accepted h r chain) {name : String}
    (proper : name ≠ thisName ∧ name ≠ superName) (value : Value) :
    Tracks visited accepted (h.bind r name value) r (declareName name chain) := by
  cases chain with
  | nil => exact tracks
  | cons p chain =>
    obtain ⟨made, seated, bound, around, parent, outside⟩ := tracks
    have grows := Heap.Grows.bind h r proper value
    refine ⟨made, seated.mono grows, fun other member => ?_, around, grows.frames.parent parent, outside.mono grows⟩
    rcases List.mem_cons.mp member with rfl | member
    · have there : (h.frame? r).isSome := by
        cases found : h.frame? r with
        | none => simp [found] at parent
        | some f => rfl
      rw [h.binding?_bind_self there]
      rfl
    · exact grows.frames.binding (bound other member)

theorem frame?_added (h : Heap) (parent : Ref .frame) :
    (h.addFrame parent).2.frame? (h.addFrame parent).1 = some ⟨some parent, []⟩ := by
  rw [Heap.frame?_addFrame, if_pos rfl]

theorem Heap.Plain.addFrame (h : Heap) (parent : Ref .frame) :
    (h.addFrame parent).2.Plain (h.addFrame parent).1 := by
  unfold Heap.Plain Heap.binding?
  rw [frame?_added]
  exact ⟨rfl, rfl, rfl⟩

theorem Tracks.enter (tracks : Tracks visited accepted h r chain) (scope : ScopeSite) (plain : scope.Plain)
    (made : InstanceOf visited scope (h.addFrame r).1) :
    Tracks visited accepted (h.addFrame r).2 (h.addFrame r).1 (⟨scope, []⟩ :: chain) := by
  refine ⟨made, (seated_plain plain).mpr (.addFrame h r), by simp, r, ?_, tracks.mono (.addFrame h r)⟩
  rw [frame?_added]
  rfl

theorem Tracks.enclose (tracks : Tracks visited accepted h r chain) {scope : ScopeSite} {name : String} {value : Value}
    (made : InstanceOf visited scope (h.enclose r name value).1)
    (seated : Seated visited accepted (h.enclose r name value).2 scope (h.enclose r name value).1) :
    Tracks visited accepted (h.enclose r name value).2 (h.enclose r name value).1 (⟨scope, [name]⟩ :: chain) := by
  refine ⟨made, seated, fun other member => ?_, r, ?_, tracks.mono (.enclose h r name value)⟩
  · rw [Heap.binding?_enclose, if_pos (List.mem_singleton.mp member)]
    rfl
  · rw [Heap.frame?_enclose, if_pos rfl]
    rfl

/-- The frame of a plain scope, or of none, is plain. -/
theorem Tracks.plain (globals : h.Plain Heap.globals) (tracks : Tracks visited accepted h r chain)
    (plain : ∀ scope ∈ chain.head?.map (·.scope), scope.Plain) : h.Plain r := by
  cases chain with
  | nil =>
    obtain rfl : r = Heap.globals := tracks
    exact globals
  | cons p chain =>
    obtain ⟨-, seated, -⟩ := tracks
    exact (seated_plain (plain p.scope rfl)).mp seated

end Tracks

/-! ### Functions on a heap -/

/-- A function that may be called. Once it is, its frame tracks the scopes around its declaration. That frame is
plain, or the function is a method that is bound to an instance. -/
def Callable (visited : Point → Prop) (accepted : List Stmt → Prop) (h : Heap) (closure : Closure) : Prop :=
  (∃ program chain, accepted program ∧ Stands program chain false true (.function closure.decl) ∧
    ∀ arguments m, visited ⟨.invoke closure arguments, m⟩ → Tracks visited accepted h closure.scope chain) ∧
  (h.Plain closure.scope ∨ ∃ decl receiver c method,
    Received visited accepted h decl closure.scope receiver c method ∧
    closure = { method with scope := closure.scope })

/-- A method of a class, before it is bound to an instance. -/
def Bindable (visited : Point → Prop) (accepted : List Stmt → Prop) (h : Heap) (c : Ref .classObject)
    (method : Closure) : Prop :=
  (∃ name, h.ownMethod? name c = some method) ∧ ∃ chain name superclass? methods line,
    method.decl ∈ methods ∧
    Declared visited accepted h chain c method.scope (.classDecl name superclass? methods line) ∧
    Tracks visited accepted h method.scope
      (methodChain (.classDecl name superclass? methods line) name chain superclass?)

/-- What may be bound to a name: to `this` instances for methods of their classes, and to `super` classes. -/
def Special (visited : Point → Prop) (accepted : List Stmt → Prop) (h : Heap) (r : Ref .frame) (name : String)
    (value : Value) : Prop :=
  (name = thisName → ∃ receiver, value = .instance receiver ∧
    ∃ decl c method, Received visited accepted h decl r receiver c method) ∧
  (name = superName → ∃ c, value = .classObject c)

/-- All functions on a heap are declared in accepted programs, within frames that track the scopes there. -/
structure WellScoped (visited : Point → Prop) (accepted : List Stmt → Prop) (h : Heap) : Prop where
  globals : h.Plain Heap.globals
  closures : ∀ r closure, h.closure? r = some closure → Callable visited accepted h closure
  classes : ∀ r made name method, h.classObject? r = some made → made.methods.get? name = some method →
    Bindable visited accepted h r method
  ordered : h.Ordered
  special : ∀ r name value, h.binding? r name = some value → Special visited accepted h r name value

section WellScoped

variable {visited : Point → Prop} {accepted : List Stmt → Prop} {h h' : Heap} {r : Ref .frame}
variable {c : Ref .classObject} {name : String} {value : Value}

theorem special_of_ne (proper : name ≠ thisName ∧ name ≠ superName) (r : Ref .frame) (value : Value) :
    Special visited accepted h r name value :=
  ⟨fun same => absurd same proper.1, fun same => absurd same proper.2⟩

theorem Special.mono (special : Special visited accepted h r name value) (grows : h.Grows h') :
    Special visited accepted h' r name value := by
  refine ⟨fun this => ?_, special.2⟩
  obtain ⟨receiver, same, decl, c, method, received⟩ := special.1 this
  exact ⟨receiver, same, decl, c, method, received.mono grows⟩

theorem Callable.mono {closure : Closure} (callable : Callable visited accepted h closure) (grows : h.Grows h') :
    Callable visited accepted h' closure := by
  obtain ⟨⟨program, chain, inside, stands, tracks⟩, seat⟩ := callable
  refine ⟨⟨program, chain, inside, stands, fun arguments m met => (tracks arguments m met).mono grows⟩, ?_⟩
  refine seat.imp (fun plain => plain.mono grows) fun ⟨decl, receiver, c, method, received, same⟩ => ?_
  exact ⟨decl, receiver, c, method, received.mono grows, same⟩

theorem Bindable.mono {closure : Closure} (bindable : Bindable visited accepted h c closure) (grows : h.Grows h') :
    Bindable visited accepted h' c closure := by
  obtain ⟨⟨name, own⟩, chain, className, superclass?, methods, line, member, declared, tracks⟩ := bindable
  exact ⟨⟨name, grows.ownMethod? own⟩, chain, className, superclass?, methods, line, member, declared.mono grows,
    tracks.mono grows⟩

/-- A heap stays sound when it grows by functions and classes that are. -/
theorem WellScoped.step (sound : WellScoped visited accepted h) (grows : h.Grows h')
    (closures : ∀ r closure, h'.closure? r = some closure →
      h.closure? r = some closure ∨ Callable visited accepted h' closure)
    (classes : ∀ r made, h'.classObject? r = some made → h.classObject? r = some made ∨
      ((∀ name method, made.methods.get? name = some method → Bindable visited accepted h' r method) ∧
        ∀ s, made.superclass? = some s → s.index < r.index))
    (special : ∀ r name value, h'.binding? r name = some value →
      h.binding? r name = some value ∨ Special visited accepted h' r name value) :
    WellScoped visited accepted h' := by
  refine ⟨sound.globals.mono grows, fun r closure found => ?_, fun r made name method found has => ?_,
    fun c s link => ?_, fun r name value found => ?_⟩
  · rcases closures r closure found with before | new
    · exact (sound.closures r closure before).mono grows
    · exact new
  · rcases classes r made found with before | new
    · exact (sound.classes r made name method before has).mono grows
    · exact new.1 name method has
  · obtain ⟨made, found, superclass⟩ := Option.bind_eq_some_iff.mp link
    rcases classes c made found with before | new
    · exact sound.ordered c s (Option.bind_eq_some_iff.mpr ⟨made, before, superclass⟩)
    · exact new.2 s superclass
  · rcases special r name value found with before | new
    · exact (sound.special r name value before).mono grows
    · exact new

/-- Nothing changes but instances and arrays. -/
theorem WellScoped.of_frames (sound : WellScoped visited accepted h) (grows : h.Grows h')
    (frames : h'.frames = h.frames) (closures : h'.closures = h.closures) (classes : h'.classes = h.classes) :
    WellScoped visited accepted h' := by
  refine sound.step grows (fun r closure found => Or.inl ?_) (fun r made found => Or.inl ?_)
    fun r name value found => Or.inl ?_
  · unfold Heap.closure? at found ⊢
    rwa [← closures]
  · unfold Heap.classObject? at found ⊢
    rwa [← classes]
  · unfold Heap.binding? Heap.frame? at found ⊢
    rwa [← frames]

theorem WellScoped.addFrame (sound : WellScoped visited accepted h) (parent : Ref .frame) :
    WellScoped visited accepted (h.addFrame parent).2 := by
  refine sound.step (.addFrame h parent) (fun _ _ => Or.inl) (fun _ _ => Or.inl) fun r name value found => Or.inl ?_
  unfold Heap.binding? at found ⊢
  rw [Heap.frame?_addFrame] at found
  split at found
  · cases found
  · exact found

theorem WellScoped.bind (sound : WellScoped visited accepted h) (target : Ref .frame)
    (proper : name ≠ thisName ∧ name ≠ superName) (value : Value) :
    WellScoped visited accepted (h.bind target name value) := by
  refine sound.step (.bind h target proper value) (fun _ _ => Or.inl) (fun _ _ => Or.inl) fun r other v found => ?_
  by_cases same : other = name
  · subst same
    exact Or.inr (special_of_ne proper r v)
  · rw [h.binding?_bind_of_ne (Or.inr same)] at found
    exact Or.inl found

theorem WellScoped.enclose (sound : WellScoped visited accepted h) (parent : Ref .frame)
    (special : Special visited accepted (h.enclose parent name value).2 (h.enclose parent name value).1 name value) :
    WellScoped visited accepted (h.enclose parent name value).2 := by
  refine sound.step (.enclose h parent name value) (fun _ _ => Or.inl) (fun _ _ => Or.inl) fun r other v found => ?_
  by_cases fresh : r = (h.enclose parent name value).1
  · subst fresh
    rw [Heap.binding?_enclose] at found
    split at found
    · next same =>
      obtain rfl := Option.some.inj found
      exact Or.inr (same ▸ special)
    · cases found
  · refine Or.inl ?_
    rwa [Heap.binding?, Heap.frame?_enclose, if_neg fresh] at found

theorem WellScoped.addClosure (sound : WellScoped visited accepted h) {closure : Closure}
    (callable : Callable visited accepted h closure) : WellScoped visited accepted (h.addClosure closure).2 := by
  have grows := Heap.Grows.addClosure h closure
  refine sound.step grows (fun r other found => ?_) (fun _ _ => Or.inl) fun _ _ _ => Or.inl
  rw [Heap.closure?_addClosure] at found
  split at found
  · obtain rfl := Option.some.inj found
    exact Or.inr (callable.mono grows)
  · exact Or.inl found

theorem WellScoped.addClass (sound : WellScoped visited accepted h) {made : ClassObject}
    (bindable : ∀ name method, made.methods.get? name = some method →
      Bindable visited accepted (h.addClass made).2 (h.addClass made).1 method)
    (older : ∀ s, made.superclass? = some s → s.index < h.classes.size) :
    WellScoped visited accepted (h.addClass made).2 := by
  refine sound.step (.addClass h made) (fun _ _ => Or.inl) (fun r other found => ?_) fun _ _ _ => Or.inl
  rw [Heap.classObject?_addClass] at found
  split at found
  · next fresh =>
    obtain rfl := Option.some.inj found
    rw [fresh]
    exact Or.inr ⟨bindable, older⟩
  · exact Or.inl found

/-- The method that a class has or inherits is a method of a class that it reaches. -/
theorem WellScoped.method {name : String} {method : Closure} (sound : WellScoped visited accepted h)
    (found : h.method? c name = some method) :
    ∃ owner, h.Reaches c owner ∧ Bindable visited accepted h owner method := by
  obtain ⟨owner, reaches, own⟩ := Heap.owner_of_method? found
  obtain ⟨made, there, has⟩ := Option.bind_eq_some_iff.mp own
  exact ⟨owner, reaches, sound.classes owner made name method there has⟩

end WellScoped

end Lox
