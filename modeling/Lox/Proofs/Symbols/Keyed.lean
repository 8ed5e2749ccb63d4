import Lox.Machine.Execution
import Lox.Proofs.Symbols.Interning

/-!
What a program keeps by name, kept by symbol: the scopes of a walk, the bindings of frames, the methods of classes
and the fields of instances. Each of them reads as the same kept by text, and to look a symbol up, or to change what
is under it, is to do that with its text.
-/

namespace Lox

variable {host : Host} {α β : Type}

/-! ### Scopes -/

/-- What a walk over a program knows of names. -/
structure SymbolResolution where
  scopes : List (SymbolTable Bool)
  distances : Distances
  diagnostics : List Diagnostic

namespace SymbolResolution

variable (r : SymbolResolution) (c : Context host)

def named : Resolution :=
  ⟨r.scopes.map c.named, r.distances, r.diagnostics, .none, .none⟩

def Keyed : Prop :=
  ∀ scope ∈ r.scopes, c.Keyed scope

def start : SymbolResolution :=
  ⟨[], [], []⟩

def report (line : Nat) (error : StaticError) : SymbolResolution :=
  { r with diagnostics := r.diagnostics ++ [.onLine line error] }

def openScope : SymbolResolution :=
  { r with scopes := [] :: r.scopes }

def closeScope : SymbolResolution :=
  { r with scopes := r.scopes.tail }

def setName (s : Symbol) (known : Bool) : SymbolResolution :=
  match r.scopes with
  | [] => r
  | scope :: outer => { r with scopes := c.put scope s known :: outer }

def declares (s : Symbol) : Bool :=
  r.scopes.head?.any fun scope => (c.get? scope s).isSome

def declare (s : Symbol) (line : Nat) : SymbolResolution :=
  let next := r.setName c s false
  if r.declares c s then next.report line (.alreadyDeclared (c.name s)) else next

def define (s : Symbol) : SymbolResolution :=
  r.setName c s true

def refer (id : Nat) (s : Symbol) : SymbolResolution :=
  match r.scopes.findIdx? fun scope => (c.get? scope s).isSome with
  | some distance => { r with distances := r.distances.put id distance }
  | none => r

def read (id : Nat) (s : Symbol) (line : Nat) : SymbolResolution :=
  if r.scopes.head?.bind (c.get? · s) = some false then
    (r.report line (.ownInitializer (c.name s))).refer c id s
  else r.refer c id s

end SymbolResolution

/-! ### Frames, classes and instances -/

structure SymbolFrame where
  parent? : Option (Ref .frame)
  bindings : SymbolTable Value

def SymbolFrame.named (f : SymbolFrame) (c : Context host) : Frame :=
  ⟨f.parent?, c.named f.bindings⟩

def SymbolFrame.put (f : SymbolFrame) (c : Context host) (s : Symbol) (value : Value) : SymbolFrame :=
  { f with bindings := c.put f.bindings s value }

structure SymbolClass where
  name : Symbol
  superclass? : Option (Ref .classObject)
  methods : SymbolTable Closure

def SymbolClass.named (k : SymbolClass) (c : Context host) : ClassObject :=
  ⟨c.name k.name, k.superclass?, c.named k.methods⟩

structure SymbolInstance where
  classRef : Ref .classObject
  fields : SymbolTable Value

def SymbolInstance.named (i : SymbolInstance) (c : Context host) : Instance :=
  ⟨i.classRef, c.named i.fields⟩

def SymbolInstance.put (i : SymbolInstance) (c : Context host) (s : Symbol) (value : Value) : SymbolInstance :=
  { i with fields := c.put i.fields s value }

/-- The objects of a heap that have tables by symbol. -/
structure SymbolHeap where
  frames : Array SymbolFrame
  classes : Array SymbolClass
  instances : Array SymbolInstance

/-- A table of some entries, of which later ones count. -/
def Context.collect (c : Context host) (entries : List (Symbol × α)) : SymbolTable α :=
  entries.foldl (fun t entry => c.put t entry.1 entry.2) []

namespace SymbolHeap

variable (h : SymbolHeap) (c : Context host)

def named : Heap :=
  ⟨h.frames.map (·.named c), #[], h.classes.map (·.named c), h.instances.map (·.named c), #[]⟩

structure Keyed : Prop where
  frames : ∀ f ∈ h.frames, c.Keyed f.bindings
  classes : ∀ k ∈ h.classes, k.name ∈ c.held ∧ c.Keyed k.methods
  instances : ∀ i ∈ h.instances, c.Keyed i.fields

def ancestor? (h : SymbolHeap) (frame : Ref .frame) : Nat → Option (Ref .frame)
  | 0 => some frame
  | n + 1 => ((h.frames[frame.index]?).bind (·.parent?)).bind (h.ancestor? · n)

def target? (distances : Distances) (frame : Ref .frame) (id : Nat) : Option (Ref .frame) :=
  match distances.get? id with
  | some distance => h.ancestor? frame distance
  | none => some Heap.globals

def binding? (frame : Ref .frame) (s : Symbol) : Option Value :=
  (h.frames[frame.index]?).bind fun f => c.get? f.bindings s

def lookup? (distances : Distances) (frame : Ref .frame) (id : Nat) (s : Symbol) : Option Value :=
  (h.target? distances frame id).bind (h.binding? c · s)

def addFrame (parent : Ref .frame) : Ref .frame × SymbolHeap :=
  (⟨h.frames.size⟩, { h with frames := h.frames.push ⟨some parent, []⟩ })

def bind (frame : Ref .frame) (s : Symbol) (value : Value) : SymbolHeap :=
  { h with frames := h.frames.modify frame.index (·.put c s value) }

/-- The frame to which a node refers, if the symbol is bound there. -/
def assigned? (distances : Distances) (frame : Ref .frame) (id : Nat) (s : Symbol) : Option (Ref .frame) :=
  (h.target? distances frame id).filter fun target => (h.binding? c target s).isSome

def addClass (name : Symbol) (superclass? : Option (Ref .classObject)) (methods : List (Symbol × Closure)) :
    Ref .classObject × SymbolHeap :=
  (⟨h.classes.size⟩, { h with classes := h.classes.push ⟨name, superclass?, c.collect methods⟩ })

/-- The method under a symbol of a class or of one of its superclasses, the nearest one of `n`. -/
def methodWithin (h : SymbolHeap) (c : Context host) (s : Symbol) : Nat → Ref .classObject → Option Closure
  | 0, _ => none
  | n + 1, r => (h.classes[r.index]?).bind fun k =>
    (c.get? k.methods s).or (k.superclass?.bind (h.methodWithin c s n))

def method? (r : Ref .classObject) (s : Symbol) : Option Closure :=
  h.methodWithin c s h.classes.size r

def addInstance (classRef : Ref .classObject) : Ref .instance × SymbolHeap :=
  (⟨h.instances.size⟩, { h with instances := h.instances.push ⟨classRef, []⟩ })

def field? (receiver : Ref .instance) (s : Symbol) : Option Value :=
  (h.instances[receiver.index]?).bind fun i => c.get? i.fields s

def setField (receiver : Ref .instance) (s : Symbol) (value : Value) : SymbolHeap :=
  { h with instances := h.instances.modify receiver.index (·.put c s value) }

end SymbolHeap

/-! ### Changes to arrays -/

theorem map_modify {xs : Array α} {g : α → β} {f : α → α} {f' : β → β} (i : Nat)
    (commutes : ∀ x ∈ xs, g (f x) = f' (g x)) : (xs.modify i f).map g = (xs.map g).modify i f' := by
  refine Array.ext_getElem? fun j => ?_
  simp only [Array.getElem?_map, Array.getElem?_modify]
  split
  · cases here : xs[j]? with
    | none => rfl
    | some x => exact congrArg some (commutes x (Array.mem_of_getElem? here))
  · rfl

theorem forall_modify {xs : Array α} {P : α → Prop} {f : α → α} (i : Nat) (before : ∀ x ∈ xs, P x)
    (changed : ∀ x ∈ xs, P (f x)) : ∀ x ∈ xs.modify i f, P x := by
  intro x member
  obtain ⟨j, here⟩ := Array.mem_iff_getElem?.mp member
  rw [Array.getElem?_modify] at here
  split at here
  · obtain ⟨y, there, rfl⟩ := Option.map_eq_some_iff.mp here
    exact changed y (Array.mem_of_getElem? there)
  · exact before x (Array.mem_of_getElem? here)

theorem forall_push {xs : Array α} {P : α → Prop} {a : α} (before : ∀ x ∈ xs, P x) (own : P a) :
    ∀ x ∈ xs.push a, P x := by
  intro x member
  rcases Array.mem_push.mp member with old | rfl
  · exact before x old
  · exact own

/-! ### Scopes read as scopes by text -/

variable {c c' : Context host} {s : Symbol}

namespace Context

variable (faithful : c.Faithful) (held : s ∈ c.held)
include faithful held

theorem has_named {t : SymbolTable α} (keyed : c.Keyed t) :
    Table.has (c.name s) (c.named t) = (c.get? t s).isSome := by
  rw [Table.has, get?_named faithful keyed held]

theorem findIdx?_named {scopes : List (SymbolTable Bool)} (keyed : ∀ scope ∈ scopes, c.Keyed scope) :
    (scopes.map c.named).findIdx? (Table.has (c.name s)) = scopes.findIdx? fun scope => (c.get? scope s).isSome := by
  induction scopes with
  | nil => rfl
  | cons scope outer ih =>
    obtain ⟨first, keyed⟩ := List.forall_mem_cons.mp keyed
    rw [List.map_cons, List.findIdx?_cons, List.findIdx?_cons, has_named faithful held first, ih keyed]

end Context

namespace SymbolResolution

variable {r : SymbolResolution}

theorem Keyed.onward (keyed : r.Keyed c) (onward : c.Onward c') : r.Keyed c' ∧ r.named c' = r.named c := by
  refine ⟨fun scope member => (keyed scope member).onward onward, ?_⟩
  have scopes : r.scopes.map c'.named = r.scopes.map c.named :=
    List.map_congr_left fun scope member => (keyed scope member).named_onward onward
  rw [named, named, scopes]

theorem keyed_openScope (keyed : r.Keyed c) : r.openScope.Keyed c :=
  List.forall_mem_cons.mpr ⟨fun _ member => absurd member List.not_mem_nil, keyed⟩

theorem keyed_closeScope (keyed : r.Keyed c) : r.closeScope.Keyed c :=
  fun scope member => keyed scope (List.mem_of_mem_tail member)

theorem named_closeScope (r : SymbolResolution) (c : Context host) : r.closeScope.named c = (r.named c).closeScope := by
  simp [named, closeScope, Resolution.closeScope]

section Names

variable (faithful : c.Faithful) (keyed : r.Keyed c) (held : s ∈ c.held)
include faithful keyed held

theorem named_setName (known : Bool) : (r.setName c s known).named c = (r.named c).setName (c.name s) known := by
  obtain ⟨scopes, distances, diagnostics⟩ := r
  cases scopes with
  | nil => rfl
  | cons scope outer =>
    have put := Context.named_put faithful (keyed scope List.mem_cons_self) held known
    simp [setName, named, Resolution.setName, put]

omit faithful in
theorem keyed_setName (known : Bool) : (r.setName c s known).Keyed c := by
  obtain ⟨scopes, distances, diagnostics⟩ := r
  cases scopes with
  | nil => exact keyed
  | cons scope outer =>
    obtain ⟨first, keyed⟩ := List.forall_mem_cons.mp keyed
    exact List.forall_mem_cons.mpr ⟨first.put held known, keyed⟩

theorem declares_named : (r.named c).declares (c.name s) = r.declares c s := by
  obtain ⟨scopes, distances, diagnostics⟩ := r
  cases scopes with
  | nil => rfl
  | cons scope outer => exact Context.has_named faithful held (keyed scope List.mem_cons_self)

theorem named_declare (line : Nat) : (r.declare c s line).named c = (r.named c).declare (c.name s) line := by
  unfold declare Resolution.declare
  rw [declares_named faithful keyed held, ← named_setName faithful keyed held]
  split
  · rfl
  · rfl

omit faithful in
theorem keyed_declare (line : Nat) : (r.declare c s line).Keyed c := by
  have set := keyed_setName keyed held false
  unfold declare
  dsimp only
  split
  · exact set
  · exact set

theorem named_refer (id : Nat) : (r.refer c id s).named c = (r.named c).refer id (c.name s) := by
  have found : (r.named c).scopes.findIdx? (Table.has (c.name s)) =
      r.scopes.findIdx? fun scope => (c.get? scope s).isSome := Context.findIdx?_named faithful held keyed
  unfold refer Resolution.refer
  rw [found]
  cases r.scopes.findIdx? fun scope => (c.get? scope s).isSome with
  | none => rfl
  | some distance => rfl

omit faithful held in
theorem keyed_refer (id : Nat) (s : Symbol) : (r.refer c id s).Keyed c := by
  unfold refer
  split
  · exact keyed
  · exact keyed

theorem named_read (id line : Nat) : (r.read c id s line).named c = (r.named c).read ⟨id, c.name s, line⟩ := by
  have innermost : (r.named c).scopes.head?.bind (·.get? (c.name s)) = r.scopes.head?.bind (c.get? · s) := by
    obtain ⟨scopes, distances, diagnostics⟩ := r
    cases scopes with
    | nil => rfl
    | cons scope outer => exact Context.get?_named faithful (keyed scope List.mem_cons_self) held
  unfold read Resolution.read
  rw [innermost]
  split
  · exact named_refer (r := r.report line (.ownInitializer (c.name s))) faithful keyed held id
  · exact named_refer faithful keyed held id

omit faithful held in
theorem keyed_read (id : Nat) (s : Symbol) (line : Nat) : (r.read c id s line).Keyed c := by
  unfold read
  split
  · exact keyed_refer (r := r.report line (.ownInitializer (c.name s))) keyed id s
  · exact keyed_refer keyed id s

end Names

end SymbolResolution

/-! ### Heaps read as heaps by text -/

theorem Context.named_collect (faithful : c.Faithful) {entries : List (Symbol × α)}
    (held : ∀ entry ∈ entries, entry.1 ∈ c.held) :
    c.Keyed (c.collect entries) ∧
      c.named (c.collect entries) = Table.merge [] (entries.map fun entry => (c.name entry.1, entry.2)) := by
  have grown (t : SymbolTable α) (keyed : c.Keyed t) :
      c.Keyed (entries.foldl (fun t entry => c.put t entry.1 entry.2) t) ∧
        c.named (entries.foldl (fun t entry => c.put t entry.1 entry.2) t) =
          (c.named t).merge (entries.map fun entry => (c.name entry.1, entry.2)) := by
    induction entries generalizing t with
    | nil => exact ⟨keyed, rfl⟩
    | cons entry entries ih =>
      obtain ⟨first, held⟩ := List.forall_mem_cons.mp held
      have put := named_put faithful keyed first entry.2
      obtain ⟨keyed', named'⟩ := ih held (c.put t entry.1 entry.2) (keyed.put first entry.2)
      refine ⟨keyed', named'.trans ?_⟩
      rw [put]
      rfl
  exact grown [] fun _ member => absurd member List.not_mem_nil

namespace SymbolHeap

variable {h : SymbolHeap}

theorem Keyed.onward (keyed : h.Keyed c) (onward : c.Onward c') : h.Keyed c' ∧ h.named c' = h.named c := by
  refine ⟨⟨fun f member => (keyed.frames f member).onward onward, fun k member => ?_,
    fun i member => (keyed.instances i member).onward onward⟩, ?_⟩
  · obtain ⟨held, methods⟩ := keyed.classes k member
    exact ⟨onward.held _ held, methods.onward onward⟩
  · have frames : h.frames.map (·.named c') = h.frames.map (·.named c) :=
      Array.map_congr_left fun f member => by
        rw [SymbolFrame.named, SymbolFrame.named, (keyed.frames f member).named_onward onward]
    have classes : h.classes.map (·.named c') = h.classes.map (·.named c) :=
      Array.map_congr_left fun k member => by
        obtain ⟨held, methods⟩ := keyed.classes k member
        rw [SymbolClass.named, SymbolClass.named, onward.name _ held, methods.named_onward onward]
    have instances : h.instances.map (·.named c') = h.instances.map (·.named c) :=
      Array.map_congr_left fun i member => by
        rw [SymbolInstance.named, SymbolInstance.named, (keyed.instances i member).named_onward onward]
    rw [named, named, frames, classes, instances]

theorem frame?_named (h : SymbolHeap) (c : Context host) (frame : Ref .frame) :
    (h.named c).frame? frame = (h.frames[frame.index]?).map (·.named c) :=
  Array.getElem?_map

theorem classObject?_named (h : SymbolHeap) (c : Context host) (r : Ref .classObject) :
    (h.named c).classObject? r = (h.classes[r.index]?).map (·.named c) :=
  Array.getElem?_map

theorem instance?_named (h : SymbolHeap) (c : Context host) (r : Ref .instance) :
    (h.named c).instance? r = (h.instances[r.index]?).map (·.named c) :=
  Array.getElem?_map

theorem ancestor?_named (h : SymbolHeap) (c : Context host) (frame : Ref .frame) (n : Nat) :
    (h.named c).ancestor? frame n = h.ancestor? frame n := by
  induction n generalizing frame with
  | zero => rfl
  | succ n ih =>
    rw [Heap.ancestor?, ancestor?, frame?_named]
    cases h.frames[frame.index]? with
    | none => rfl
    | some f => exact Option.bind_congr fun parent _ => ih parent

theorem target?_named (h : SymbolHeap) (c : Context host) (distances : Distances) (frame : Ref .frame) (id : Nat) :
    (h.named c).target? distances frame id = h.target? distances frame id := by
  unfold Heap.target? target?
  cases distances.get? id with
  | none => rfl
  | some distance => exact ancestor?_named h c frame distance

theorem named_addFrame (h : SymbolHeap) (c : Context host) (parent : Ref .frame) :
    (h.named c).addFrame parent = ((h.addFrame parent).1, (h.addFrame parent).2.named c) := by
  simp [named, addFrame, Heap.addFrame, SymbolFrame.named, Context.named]

theorem keyed_addFrame (keyed : h.Keyed c) (parent : Ref .frame) : (h.addFrame parent).2.Keyed c :=
  { keyed with frames := forall_push keyed.frames fun _ member => absurd member List.not_mem_nil }

theorem named_addInstance (h : SymbolHeap) (c : Context host) (classRef : Ref .classObject) :
    (h.named c).addInstance classRef = ((h.addInstance classRef).1, (h.addInstance classRef).2.named c) := by
  simp [named, addInstance, Heap.addInstance, SymbolInstance.named, Context.named]

theorem keyed_addInstance (keyed : h.Keyed c) (classRef : Ref .classObject) : (h.addInstance classRef).2.Keyed c :=
  { keyed with instances := forall_push keyed.instances fun _ member => absurd member List.not_mem_nil }

section Names

variable (faithful : c.Faithful) (keyed : h.Keyed c) (held : s ∈ c.held)
include faithful keyed held

theorem binding?_named (frame : Ref .frame) : (h.named c).binding? frame (c.name s) = h.binding? c frame s := by
  rw [Heap.binding?, binding?, frame?_named]
  cases found : h.frames[frame.index]? with
  | none => rfl
  | some f => exact Context.get?_named faithful (keyed.frames f (Array.mem_of_getElem? found)) held

theorem lookup?_named (distances : Distances) (frame : Ref .frame) (id : Nat) :
    (h.named c).lookup? distances frame id (c.name s) = h.lookup? c distances frame id s := by
  rw [Heap.lookup?, lookup?, target?_named]
  exact Option.bind_congr fun target _ => binding?_named faithful keyed held target

theorem assigned?_named (distances : Distances) (frame : Ref .frame) (id : Nat) :
    ((h.named c).target? distances frame id).filter (fun r => ((h.named c).binding? r (c.name s)).isSome) =
      h.assigned? c distances frame id s := by
  rw [assigned?, target?_named]
  congr 1
  funext target
  rw [binding?_named faithful keyed held]

theorem named_bind (frame : Ref .frame) (value : Value) :
    (h.bind c frame s value).named c = (h.named c).bind frame (c.name s) value := by
  have frames : (h.frames.modify frame.index (·.put c s value)).map (·.named c) =
      (h.frames.map (·.named c)).modify frame.index fun f => { f with bindings := f.bindings.put (c.name s) value } :=
    map_modify _ fun f member =>
      congrArg (Frame.mk f.parent?) (Context.named_put faithful (keyed.frames f member) held value)
  simp only [named, bind, Heap.bind, frames]

omit faithful in
theorem keyed_bind (frame : Ref .frame) (value : Value) : (h.bind c frame s value).Keyed c := by
  have put (f : SymbolFrame) (member : f ∈ h.frames) : c.Keyed (f.put c s value).bindings :=
    (keyed.frames f member).put held value
  exact ⟨forall_modify frame.index keyed.frames put, keyed.classes, keyed.instances⟩

theorem named_setField (receiver : Ref .instance) (value : Value) :
    (h.setField c receiver s value).named c = (h.named c).setField receiver (c.name s) value := by
  have instances : (h.instances.modify receiver.index (·.put c s value)).map (·.named c) =
      (h.instances.map (·.named c)).modify receiver.index
        fun i => { i with fields := i.fields.put (c.name s) value } :=
    map_modify _ fun i member =>
      congrArg (Instance.mk i.classRef) (Context.named_put faithful (keyed.instances i member) held value)
  simp only [named, setField, Heap.setField, instances]

omit faithful in
theorem keyed_setField (receiver : Ref .instance) (value : Value) : (h.setField c receiver s value).Keyed c := by
  have put (i : SymbolInstance) (member : i ∈ h.instances) : c.Keyed (i.put c s value).fields :=
    (keyed.instances i member).put held value
  exact ⟨keyed.frames, keyed.classes, forall_modify receiver.index keyed.instances put⟩

theorem field?_named (receiver : Ref .instance) :
    ((h.named c).instance? receiver).bind (·.fields.get? (c.name s)) = h.field? c receiver s := by
  rw [field?, instance?_named]
  cases found : h.instances[receiver.index]? with
  | none => rfl
  | some i => exact Context.get?_named faithful (keyed.instances i (Array.mem_of_getElem? found)) held

theorem methodWithin_named (n : Nat) (r : Ref .classObject) :
    ((h.named c).lineageWithin n r).findSome? ((h.named c).ownMethod? (c.name s)) = h.methodWithin c s n r := by
  induction n generalizing r with
  | zero => rfl
  | succ n ih =>
    rw [Heap.lineageWithin, List.findSome?_cons, methodWithin, Heap.ownMethod?, classObject?_named]
    cases found : h.classes[r.index]? with
    | none => rfl
    | some k =>
      have own := Context.get?_named faithful (keyed.classes k (Array.mem_of_getElem? found)).2 held
      simp only [Option.map_some, Option.bind_some, SymbolClass.named, own]
      cases c.get? k.methods s with
      | some method => rfl
      | none =>
        cases k.superclass? with
        | none => rfl
        | some superclass => exact ih superclass

theorem method?_named (r : Ref .classObject) : (h.named c).method? r (c.name s) = h.method? c r s := by
  have size : (h.named c).classes.size = h.classes.size := Array.size_map
  rw [Heap.method?, Heap.lineage, size]
  exact methodWithin_named faithful keyed held _ r

omit keyed held in
theorem named_addClass (superclass? : Option (Ref .classObject)) {methods : List (Symbol × Closure)}
    (own : ∀ entry ∈ methods, entry.1 ∈ c.held) :
    (h.named c).addClass ⟨c.name s, superclass?, Table.merge [] (methods.map fun entry => (c.name entry.1, entry.2))⟩ =
      ((h.addClass c s superclass? methods).1, (h.addClass c s superclass? methods).2.named c) := by
  rw [← (Context.named_collect faithful own).2]
  simp [named, addClass, Heap.addClass, SymbolClass.named]

theorem keyed_addClass (superclass? : Option (Ref .classObject)) {methods : List (Symbol × Closure)}
    (own : ∀ entry ∈ methods, entry.1 ∈ c.held) : (h.addClass c s superclass? methods).2.Keyed c :=
  { keyed with classes := forall_push keyed.classes ⟨held, (Context.named_collect faithful own).1⟩ }

end Names

end SymbolHeap

end Lox
