import Lox.Machine.Value
import Lox.Table

/-!
# The heap

The heap holds all objects of a session, those of one kind in one store in the order in which they
were made.  Objects are never removed, so a reference stays good.
-/

namespace Lox

/-- The variables of a scope while it runs, within those of the scope around it. -/
structure Frame where
  parent? : Option (Ref .frame)
  bindings : Table String Value

/-- A function and the frame in which it was declared. -/
structure Closure where
  decl : FunctionDecl
  scope : Ref .frame
  /-- Whether it is a method that sets up new instances. -/
  isInitializer : Bool

structure ClassObject where
  name : String
  superclass? : Option (Ref .classObject)
  methods : Table String Closure

structure Instance where
  classRef : Ref .classObject
  fields : Table String Value

structure Heap where
  frames : Array Frame
  closures : Array Closure
  classes : Array ClassObject
  instances : Array Instance
  arrays : Array (Array Value)

namespace Heap

/-! ### Reading -/

def frame? (h : Heap) (r : Ref .frame) : Option Frame :=
  h.frames[r.index]?

def closure? (h : Heap) (r : Ref .closure) : Option Closure :=
  h.closures[r.index]?

def classObject? (h : Heap) (r : Ref .classObject) : Option ClassObject :=
  h.classes[r.index]?

def instance? (h : Heap) (r : Ref .instance) : Option Instance :=
  h.instances[r.index]?

def elements (h : Heap) (r : Ref .array) : Array Value :=
  h.arrays[r.index]?.getD #[]

def binding? (h : Heap) (r : Ref .frame) (name : String) : Option Value :=
  (h.frame? r).bind (·.bindings.get? name)

/-- The frame so many steps out from another one. -/
def ancestor? (h : Heap) (r : Ref .frame) : Nat → Option (Ref .frame)
  | 0 => some r
  | n + 1 => ((h.frame? r).bind (·.parent?)).bind (h.ancestor? · n)

/-- A class and its superclasses, nearest first, at most `n` of them. -/
def lineageWithin (h : Heap) : Nat → Ref .classObject → List (Ref .classObject)
  | 0, _ => []
  | n + 1, r =>
    r :: match (h.classObject? r).bind (·.superclass?) with
      | none => []
      | some s => h.lineageWithin n s

/-- A class and its superclasses, nearest first.  A superclass is made before its subclasses, so there
are no more of them than there are classes. -/
def lineage (h : Heap) (r : Ref .classObject) : List (Ref .classObject) :=
  h.lineageWithin h.classes.size r

/-- The method of a name that a class has itself. -/
def ownMethod? (h : Heap) (name : String) (r : Ref .classObject) : Option Closure :=
  (h.classObject? r).bind (·.methods.get? name)

/-- The method of a name that a class has or inherits: the nearest one. -/
def method? (h : Heap) (r : Ref .classObject) (name : String) : Option Closure :=
  (h.lineage r).findSome? (h.ownMethod? name)

/-! ### Making objects -/

/-- A new frame within another one. -/
def addFrame (h : Heap) (parent : Ref .frame) : Ref .frame × Heap :=
  (⟨h.frames.size⟩, { h with frames := h.frames.push ⟨some parent, []⟩ })

def addClosure (h : Heap) (c : Closure) : Ref .closure × Heap :=
  (⟨h.closures.size⟩, { h with closures := h.closures.push c })

def addClass (h : Heap) (c : ClassObject) : Ref .classObject × Heap :=
  (⟨h.classes.size⟩, { h with classes := h.classes.push c })

/-- A new instance of a class, without fields. -/
def addInstance (h : Heap) (classRef : Ref .classObject) : Ref .instance × Heap :=
  (⟨h.instances.size⟩, { h with instances := h.instances.push ⟨classRef, []⟩ })

def addArray (h : Heap) (elements : Array Value) : Ref .array × Heap :=
  (⟨h.arrays.size⟩, { h with arrays := h.arrays.push elements })

/-! ### Changing objects -/

/-- Binds a variable in a frame, in place of a binding of the same name. -/
def bind (h : Heap) (r : Ref .frame) (name : String) (value : Value) : Heap :=
  { h with frames := h.frames.modify r.index fun f =>
      { f with bindings := f.bindings.put name value } }

/-- Sets a field of an instance. -/
def setField (h : Heap) (r : Ref .instance) (name : String) (value : Value) : Heap :=
  { h with instances := h.instances.modify r.index fun i =>
      { i with fields := i.fields.put name value } }

/-- Sets an element of an array. -/
def setElement (h : Heap) (r : Ref .array) (index : Nat) (value : Value) : Heap :=
  { h with arrays := h.arrays.modify r.index fun es => es.setIfInBounds index value }

/-- Adds an element behind those of an array. -/
def pushElement (h : Heap) (r : Ref .array) (value : Value) : Heap :=
  { h with arrays := h.arrays.modify r.index fun es => es.push value }

/-! ### The start -/

/-- The frame of global variables. -/
def globals : Ref .frame :=
  ⟨0⟩

/-- A heap with nothing but the global frame, in which the given functions are bound. -/
def start : Heap :=
  ⟨#[⟨none, Native.all.map fun f => (f.name, .native f)⟩], #[], #[], #[], #[]⟩

/-! ### What is read after a change -/

variable (h : Heap)

theorem frame?_addFrame (parent : Ref .frame) (r : Ref .frame) :
    (h.addFrame parent).2.frame? r =
      if r = (h.addFrame parent).1 then some ⟨some parent, []⟩ else h.frame? r := by
  cases r
  simp only [frame?, addFrame, Array.getElem?_push, Ref.mk.injEq]

theorem closure?_addClosure (c : Closure) (r : Ref .closure) :
    (h.addClosure c).2.closure? r = if r = (h.addClosure c).1 then some c else h.closure? r := by
  cases r
  simp only [closure?, addClosure, Array.getElem?_push, Ref.mk.injEq]

theorem classObject?_addClass (c : ClassObject) (r : Ref .classObject) :
    (h.addClass c).2.classObject? r = if r = (h.addClass c).1 then some c else h.classObject? r := by
  cases r
  simp only [classObject?, addClass, Array.getElem?_push, Ref.mk.injEq]

theorem instance?_addInstance (classRef : Ref .classObject) (r : Ref .instance) :
    (h.addInstance classRef).2.instance? r =
      if r = (h.addInstance classRef).1 then some ⟨classRef, []⟩ else h.instance? r := by
  cases r
  simp only [instance?, addInstance, Array.getElem?_push, Ref.mk.injEq]

theorem elements_addArray (es : Array Value) (r : Ref .array) :
    (h.addArray es).2.elements r = if r = (h.addArray es).1 then es else h.elements r := by
  cases r
  simp only [elements, addArray, Array.getElem?_push, Ref.mk.injEq]
  split <;> rfl

theorem frame?_bind (target : Ref .frame) (name : String) (value : Value) (r : Ref .frame) :
    (h.bind target name value).frame? r =
      if r = target then
        (h.frame? r).map fun f => { f with bindings := f.bindings.put name value }
      else h.frame? r := by
  cases r
  cases target
  simp only [frame?, bind, Array.getElem?_modify, Ref.mk.injEq, eq_comm]

/-- Binding a variable leaves the nesting of frames alone. -/
theorem parent?_bind (target : Ref .frame) (name : String) (value : Value) (r : Ref .frame) :
    ((h.bind target name value).frame? r).bind (·.parent?) = (h.frame? r).bind (·.parent?) := by
  rw [frame?_bind]
  split
  · cases h.frame? r <;> rfl
  · rfl

theorem ancestor?_bind (target : Ref .frame) (name : String) (value : Value) (r : Ref .frame)
    (n : Nat) : (h.bind target name value).ancestor? r n = h.ancestor? r n := by
  induction n generalizing r with
  | zero => rfl
  | succ n ih =>
    simp only [ancestor?, parent?_bind]
    congr 1
    funext s
    exact ih s

theorem binding?_bind_of_ne {target r : Ref .frame} {name other : String}
    (different : r ≠ target ∨ other ≠ name) (value : Value) :
    (h.bind target name value).binding? r other = h.binding? r other := by
  simp only [binding?, frame?_bind]
  split
  · next same =>
    have other_ne : other ≠ name := different.resolve_left (fun ne => ne same)
    cases h.frame? r with
    | none => rfl
    | some f => simp [Table.get?_put_of_ne other_ne]
  · rfl

theorem binding?_bind_self {target : Ref .frame} (present : (h.frame? target).isSome) (name : String)
    (value : Value) : (h.bind target name value).binding? target name = some value := by
  obtain ⟨f, hf⟩ := Option.isSome_iff_exists.mp present
  simp [binding?, frame?_bind, hf]

theorem instance?_setField (target : Ref .instance) (name : String) (value : Value)
    (r : Ref .instance) :
    (h.setField target name value).instance? r =
      if r = target then (h.instance? r).map fun i => { i with fields := i.fields.put name value }
      else h.instance? r := by
  cases r
  cases target
  simp only [instance?, setField, Array.getElem?_modify, Ref.mk.injEq, eq_comm]

theorem elements_setElement (target : Ref .array) (index : Nat) (value : Value) (r : Ref .array) :
    (h.setElement target index value).elements r =
      if r = target then (h.elements r).setIfInBounds index value else h.elements r := by
  cases r with
  | mk i =>
  cases target with
  | mk j =>
  simp only [elements, setElement, Array.getElem?_modify, Ref.mk.injEq, eq_comm]
  split
  · cases h.arrays[i]? <;> simp
  · rfl

/-- Pushing makes an array that exists longer by the value. -/
theorem elements_pushElement {target : Ref .array} (present : target.index < h.arrays.size)
    (value : Value) (r : Ref .array) :
    (h.pushElement target value).elements r =
      if r = target then (h.elements r).push value else h.elements r := by
  cases r with
  | mk i =>
  cases target with
  | mk j =>
  simp only [elements, pushElement, Array.getElem?_modify, Ref.mk.injEq, eq_comm]
  split
  · next same =>
    subst same
    simp [Array.getElem?_eq_getElem present]
  · rfl

end Heap

end Lox
