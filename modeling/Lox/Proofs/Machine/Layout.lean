import Lox.Machine.Execution
import Lox.Proofs.Scope.Mirror

/-!
Heaps with names exchanged. A layout says of each frame within which one it is and whether the variable of
its scope is renamed. Two heaps are alike under a layout if they have the same objects, but for the names in
the frames where it is, and functions with the names exchanged to match. Layouts only grow, by the frames
that are made.
-/

namespace Lox

/-! ### Layouts -/

/-- What stays as it is of a frame. -/
structure Slot where
  parent? : Option (Ref .frame)
  marked : Bool

/-- The slots of the frames of a heap, in the order in which they were made. -/
abbrev Layout : Type :=
  List Slot

namespace Layout

variable {L L' : Layout} {r : Ref .frame} {marks : Marks}

def slot? (L : Layout) (r : Ref .frame) : Option Slot :=
  L[r.index]?

/-- From a frame outwards the variables are renamed as marked, up to the global frame. -/
inductive Tracks (L : Layout) : Ref .frame → Marks → Prop
  | globals : L.slot? Heap.globals = some ⟨none, false⟩ → L.Tracks Heap.globals []
  | inner {r around : Ref .frame} {marked : Bool} {marks : Marks} :
    L.slot? r = some ⟨some around, marked⟩ → L.Tracks around marks → L.Tracks r (marked :: marks)

theorem slot?_mono {slot : Slot} (more : L <+: L') (found : L.slot? r = some slot) : L'.slot? r = some slot := by
  obtain ⟨added, rfl⟩ := more
  obtain ⟨inside, -⟩ := List.getElem?_eq_some_iff.mp found
  exact (List.getElem?_append_left inside).trans found

theorem Tracks.mono (tracks : L.Tracks r marks) (more : L <+: L') : L'.Tracks r marks := by
  induction tracks with
  | globals found => exact .globals (slot?_mono more found)
  | inner found _ ih => exact .inner (slot?_mono more found) ih

theorem Tracks.slot (tracks : L.Tracks r marks) :
    ∃ around?, L.slot? r = some ⟨around?, marks.headD false⟩ := by
  cases tracks with
  | globals found => exact ⟨none, found⟩
  | inner found _ => exact ⟨some _, found⟩

theorem slot?_append (L : Layout) (slot : Slot) (r : Ref .frame) :
    Layout.slot? (L ++ [slot]) r = if r.index = L.length then some slot else L.slot? r := by
  unfold slot?
  split
  · next same => simp [same]
  · next other =>
    by_cases inside : r.index < L.length
    · exact List.getElem?_append_left inside
    · have beyond : L.length + 1 ≤ r.index := by omega
      rw [List.getElem?_eq_none (by simpa using beyond), List.getElem?_eq_none (by omega)]

/-- A frame that is made within another one. -/
theorem Tracks.enter (tracks : L.Tracks r marks) (own : Bool) :
    Tracks (L ++ [⟨some r, own⟩]) ⟨L.length⟩ (own :: marks) :=
  .inner (by simp [slot?]) (tracks.mono (List.prefix_append _ _))

/-- The same frames with no variable renamed. -/
def unmarked (L : Layout) : Layout :=
  L.map fun slot => { slot with marked := false }

theorem slot?_unmarked (L : Layout) (r : Ref .frame) :
    L.unmarked.slot? r = (L.slot? r).map fun slot => { slot with marked := false } :=
  List.getElem?_map

theorem Tracks.unmarked (tracks : L.Tracks r marks) :
    ∃ marks' : Marks, marks'.Unmarked ∧ L.unmarked.Tracks r marks' := by
  induction tracks with
  | globals found => exact ⟨[], by simp [Marks.Unmarked], .globals (by rw [slot?_unmarked, found]; rfl)⟩
  | inner found _ ih =>
    obtain ⟨marks', unmarked, outside⟩ := ih
    exact ⟨false :: marks', unmarked.enter, .inner (by rw [slot?_unmarked, found]; rfl) outside⟩

end Layout

/-! ### Options -/

section Options

variable {α β γ δ : Type} {R : α → β → Prop} {a? : Option α} {b? : Option β}

theorem rel_imp {S : α → β → Prop} (related : Option.Rel R a? b?) (implied : ∀ a b, R a b → S a b) :
    Option.Rel S a? b? := by
  cases related with
  | none => exact .none
  | some related => exact .some (implied _ _ related)

theorem rel_bind {S : γ → δ → Prop} {f : α → Option γ} {g : β → Option δ} (related : Option.Rel R a? b?)
    (step : ∀ a b, R a b → Option.Rel S (f a) (g b)) : Option.Rel S (a?.bind f) (b?.bind g) := by
  cases related with
  | none => exact .none
  | some related => exact step _ _ related

theorem bind_eq_of_rel {f : α → Option γ} {g : β → Option γ} (related : Option.Rel R a? b?)
    (same : ∀ a b, R a b → g b = f a) : b?.bind g = a?.bind f := by
  cases related with
  | none => rfl
  | some related => exact same _ _ related

/-- What two related options show in the same way. -/
theorem map_eq_of_rel {f : α → γ} {g : β → γ} (related : Option.Rel R a? b?) (same : ∀ a b, R a b → g b = f a) :
    b?.map g = a?.map f := by
  cases related with
  | none => rfl
  | some related => exact congrArg some (same _ _ related)

theorem rel_findSome {f : γ → Option α} {g : γ → Option β} (related : ∀ c, Option.Rel R (f c) (g c)) (cs : List γ) :
    Option.Rel R (cs.findSome? f) (cs.findSome? g) := by
  induction cs with
  | nil => exact .none
  | cons c cs ih =>
    have first := related c
    rw [List.findSome?_cons, List.findSome?_cons]
    revert first
    cases f c <;> cases g c <;> intro first <;> cases first
    · exact ih
    · exact .some ‹_›

end Options

/-! ### What a heap shows -/

/-- Two heaps with the same arrays and instances and with functions and classes of the same names. -/
structure Heap.Resembles (h h' : Heap) : Prop where
  closures : ∀ r, (h'.closure? r).map (·.decl.name) = (h.closure? r).map (·.decl.name)
  classesSize : h'.classes.size = h.classes.size
  names : ∀ r, (h'.classObject? r).map (·.name) = (h.classObject? r).map (·.name)
  superclasses : ∀ r, (h'.classObject? r).bind (·.superclass?) = (h.classObject? r).bind (·.superclass?)
  instances : h'.instances = h.instances
  arrays : h'.arrays = h.arrays

namespace Heap.Resembles

variable {h h' : Heap} (resembles : h.Resembles h')
include resembles

theorem lineage (r : Ref .classObject) : h'.lineage r = h.lineage r := by
  have within (n : Nat) (r : Ref .classObject) : h'.lineageWithin n r = h.lineageWithin n r := by
    induction n generalizing r with
    | zero => rfl
    | succ n ih =>
      unfold lineageWithin
      rw [resembles.superclasses]
      cases (h.classObject? r).bind (·.superclass?) with
      | none => rfl
      | some s => exact congrArg (r :: ·) (ih s)
  rw [Heap.lineage, Heap.lineage, resembles.classesSize, within]

theorem instance? (r : Ref .instance) : h'.instance? r = h.instance? r := by
  rw [Heap.instance?, resembles.instances]
  rfl

theorem elements (r : Ref .array) : h'.elements r = h.elements r := by
  rw [Heap.elements, resembles.arrays]
  rfl

theorem renderScalar (v : Value) : h'.renderScalar v = h.renderScalar v := by
  cases v with
  | function r => rw [Heap.renderScalar, Heap.renderScalar, resembles.closures]
  | classObject r => rw [Heap.renderScalar, Heap.renderScalar, resembles.names]
  | «instance» r =>
    have name : ((h'.instance? r).bind (h'.classObject? ·.classRef)).map (·.name) =
        ((h.instance? r).bind (h.classObject? ·.classRef)).map (·.name) := by
      rw [resembles.instance?]
      cases h.instance? r with
      | none => rfl
      | some made => exact resembles.names made.classRef
    rw [Heap.renderScalar, Heap.renderScalar, name]
  | bool value => cases value <;> rfl
  | _ => rfl

theorem render (v : Value) : h'.render v = h.render v := by
  have within (n : Nat) : h'.renderOpen n = h.renderOpen n := by
    induction n with
    | zero => rfl
    | succ n ih =>
      funext v
      cases v with
      | array r =>
        unfold renderOpen
        rw [ih, resembles.elements, resembles.renderScalar]
      | _ => exact congrArg pure (resembles.renderScalar _)
  rw [Heap.render, Heap.render, resembles.arrays, within]

end Heap.Resembles

/-! ### Heaps alike -/

def Frame.rename (ρ : Renaming) (marked : Bool) (f : Frame) : Frame :=
  { f with bindings := f.bindings.rekey (ρ.name marked) }

section Alike

variable (ρ : Renaming) (d : Distances)

/-- A function with the names exchanged where they are around its declaration. Between its frame and its
declaration there are some scopes with frames to come. -/
structure Closure.Alike (L : Layout) (between : Marks) (c c' : Closure) : Prop where
  decl : ∃ marks, L.Tracks c.scope marks ∧ c.decl.Renamed ρ d (between ++ marks) c'.decl
  scope : c'.scope = c.scope
  isInitializer : c'.isInitializer = c.isInitializer

/-- A function that can be called. -/
def Closure.Same (L : Layout) : Closure → Closure → Prop :=
  Closure.Alike ρ d L []

/-- A method that is not bound to an instance yet. -/
def Closure.SameMethod (L : Layout) : Closure → Closure → Prop :=
  Closure.Alike ρ d L [false]

structure ClassObject.Alike (L : Layout) (made made' : ClassObject) : Prop where
  name : made'.name = made.name
  superclass? : made'.superclass? = made.superclass?
  methods : ∀ name, Option.Rel (Closure.SameMethod ρ d L) (made.methods.get? name) (made'.methods.get? name)

structure Heap.Alike (L : Layout) (h h' : Heap) : Prop where
  globals : L.slot? Heap.globals = some ⟨none, false⟩
  framesSize : h.frames.size = L.length ∧ h'.frames.size = L.length
  frames : ∀ r slot, L.slot? r = some slot → ∃ f, h.frame? r = some f ∧ f.parent? = slot.parent? ∧
    h'.frame? r = some (f.rename ρ slot.marked)
  closuresSize : h'.closures.size = h.closures.size
  closures : ∀ r, Option.Rel (Closure.Same ρ d L) (h.closure? r) (h'.closure? r)
  classesSize : h'.classes.size = h.classes.size
  classes : ∀ r, Option.Rel (ClassObject.Alike ρ d L) (h.classObject? r) (h'.classObject? r)
  instances : h'.instances = h.instances
  arrays : h'.arrays = h.arrays

end Alike

section Heaps

variable {ρ : Renaming} {d : Distances} {L L' : Layout} {h h' : Heap} {r : Ref .frame} {marks between : Marks}

theorem Closure.Alike.mono {c c' : Closure} (alike : c.Alike ρ d L between c') (more : L <+: L') :
    c.Alike ρ d L' between c' := by
  obtain ⟨marks, tracks, renamed⟩ := alike.decl
  exact { alike with decl := ⟨marks, tracks.mono more, renamed⟩ }

theorem FunctionDecl.Renamed.arity {f f' : FunctionDecl} (renamed : f.Renamed ρ d marks f') :
    f'.params.length = f.params.length := by
  cases renamed
  exact List.length_map _

theorem Closure.Alike.arity {c c' : Closure} (alike : c.Alike ρ d L between c') :
    c'.decl.params.length = c.decl.params.length := by
  obtain ⟨marks, -, renamed⟩ := alike.decl
  exact renamed.arity

theorem Closure.Alike.name {c c' : Closure} (alike : c.Alike ρ d L between c') : c'.decl.name = c.decl.name := by
  obtain ⟨marks, -, renamed⟩ := alike.decl
  exact renamed.name

theorem ClassObject.Alike.mono {made made' : ClassObject} (alike : made.Alike ρ d L made') (more : L <+: L') :
    made.Alike ρ d L' made' :=
  { alike with methods := fun name => rel_imp (alike.methods name) fun _ _ same => same.mono more }

namespace Heap.Alike

variable (alike : h.Alike ρ d L h')
include alike

/-! ### What is read -/

theorem parent? {slot : Slot} (found : L.slot? r = some slot) :
    (h.frame? r).bind (·.parent?) = slot.parent? ∧ (h'.frame? r).bind (·.parent?) = slot.parent? := by
  obtain ⟨f, there, parent, there'⟩ := alike.frames r slot found
  rw [there, there']
  exact ⟨parent, parent⟩

/-- Going outwards leads to the same frame, of which it is known whether its variable is renamed. -/
theorem ancestor? (tracks : L.Tracks r marks) (n : Nat) : h'.ancestor? r n = h.ancestor? r n ∧
    ∀ t, h.ancestor? r n = some t → ∃ around?, L.slot? t = some ⟨around?, marks.getD n false⟩ := by
  induction n generalizing r marks with
  | zero =>
    refine ⟨rfl, fun t reached => ?_⟩
    obtain rfl := Option.some.inj reached
    obtain ⟨around?, found⟩ := tracks.slot
    refine ⟨around?, ?_⟩
    rw [found]
    cases marks <;> rfl
  | succ n ih =>
    unfold Heap.ancestor?
    cases tracks with
    | globals found =>
      obtain ⟨parent, parent'⟩ := alike.parent? found
      rw [parent, parent']
      exact ⟨rfl, fun t reached => by cases reached⟩
    | inner found outside =>
      obtain ⟨parent, parent'⟩ := alike.parent? found
      rw [parent, parent']
      exact ih outside

theorem binding? {slot : Slot} (found : L.slot? r = some slot) (name : String) :
    h'.binding? r (ρ.name slot.marked name) = h.binding? r name := by
  obtain ⟨f, there, -, there'⟩ := alike.frames r slot found
  unfold Heap.binding?
  rw [there, there']
  exact Table.get?_rekey (fun _ _ => ρ.name_injective slot.marked) name f.bindings

/-- A word of the language is bound to the same in all frames. -/
theorem binding?_keyword {name : String} (kept : ∀ marked, ρ.name marked name = name)
    (there : ∃ slot, L.slot? r = some slot) : h'.binding? r name = h.binding? r name := by
  obtain ⟨slot, found⟩ := there
  have same := alike.binding? found name
  rwa [kept] at same

theorem target? (tracks : L.Tracks r marks) (id : Nat) : h'.target? d r id = h.target? d r id ∧
    ∀ t, h.target? d r id = some t → ∃ slot, L.slot? t = some slot ∧
      ∀ name, ρ.nameAt marks (d.get? id) name = ρ.name slot.marked name := by
  unfold Heap.target?
  cases d.get? id with
  | none =>
    refine ⟨rfl, fun t reached => ?_⟩
    obtain rfl := Option.some.inj reached
    exact ⟨_, alike.globals, fun _ => rfl⟩
  | some distance =>
    obtain ⟨same, slots⟩ := alike.ancestor? tracks distance
    refine ⟨same, fun t reached => ?_⟩
    obtain ⟨around?, found⟩ := slots t reached
    exact ⟨_, found, fun _ => rfl⟩

/-- A variable is looked up under its name in the frame where it is. -/
theorem lookup? (tracks : L.Tracks r marks) (id : Nat) (name : String) :
    h'.lookup? d r id (ρ.nameAt marks (d.get? id) name) = h.lookup? d r id name := by
  obtain ⟨same, slots⟩ := alike.target? tracks id
  unfold Heap.lookup?
  rw [same]
  cases reached : h.target? d r id with
  | none => rfl
  | some t =>
    obtain ⟨slot, found, named⟩ := slots t reached
    change h'.binding? t _ = h.binding? t name
    rw [named]
    exact alike.binding? found name

/-- Names are exchanged in frames only, so both heaps show the same. -/
theorem resembles : h.Resembles h' where
  closures r := map_eq_of_rel (alike.closures r) fun _ _ same => same.name
  classesSize := alike.classesSize
  names r := map_eq_of_rel (alike.classes r) fun _ _ made => made.name
  superclasses r := bind_eq_of_rel (alike.classes r) fun _ _ made => made.superclass?
  instances := alike.instances
  arrays := alike.arrays

theorem method? (r : Ref .classObject) (name : String) :
    Option.Rel (Closure.SameMethod ρ d L) (h.method? r name) (h'.method? r name) := by
  rw [Heap.method?, Heap.method?, alike.resembles.lineage]
  exact rel_findSome (fun r => rel_bind (alike.classes r) fun _ _ made => made.methods name) _

/-! ### What is changed -/

/-- A variable is bound under its name in the frame where it is. -/
theorem bind {slot : Slot} (found : L.slot? r = some slot) (name : String) (value : Value) :
    (h.bind r name value).Alike ρ d L (h'.bind r (ρ.name slot.marked name) value) := by
  have sizes := alike.framesSize
  refine { alike with framesSize := by simpa [Heap.bind] using sizes, frames := fun t other there => ?_ }
  obtain ⟨f, was, parent, was'⟩ := alike.frames t other there
  rw [Heap.frame?_bind, Heap.frame?_bind, was, was']
  by_cases here : t = r
  · subst here
    obtain rfl := Option.some.inj (found.symm.trans there)
    refine ⟨_, if_pos rfl, parent, (if_pos rfl).trans ?_⟩
    have put := Table.put_rekey (fun _ _ => ρ.name_injective slot.marked) name value f.bindings
    simp only [Option.map_some, Frame.rename, put]
  · exact ⟨f, if_neg here, parent, if_neg here⟩

/-- A name that stays the same in a frame is bound in it. -/
theorem bind_kept (tracks : L.Tracks r marks) {name : String} (kept : ρ.name (marks.headD false) name = name)
    (value : Value) : (h.bind r name value).Alike ρ d L (h'.bind r name value) := by
  obtain ⟨around?, found⟩ := tracks.slot
  have bound := alike.bind found name value
  rwa [kept] at bound

theorem bindParams (tracks : L.Tracks r marks) (params : List String) (arguments : List Value) :
    (bindParams r params arguments h).Alike ρ d L
      (Lox.bindParams r (params.map (ρ.name (marks.headD false))) arguments h') := by
  obtain ⟨around?, found⟩ := tracks.slot
  unfold Lox.bindParams
  rw [List.zip_map_left]
  induction params.zip arguments generalizing h h' with
  | nil => exact alike
  | cons pair rest ih => exact ih (alike.bind found pair.1 pair.2)

theorem addFrame (parent : Ref .frame) (own : Bool) :
    (h.addFrame parent).1 = ⟨L.length⟩ ∧ (h'.addFrame parent).1 = ⟨L.length⟩ ∧
    (h.addFrame parent).2.Alike ρ d (L ++ [⟨some parent, own⟩]) (h'.addFrame parent).2 := by
  obtain ⟨size, size'⟩ := alike.framesSize
  have more : L <+: L ++ [⟨some parent, own⟩] := List.prefix_append _ _
  have made : (h.addFrame parent).1 = ⟨L.length⟩ := congrArg Ref.mk size
  have made' : (h'.addFrame parent).1 = ⟨L.length⟩ := congrArg Ref.mk size'
  refine ⟨made, made', { alike with
    globals := Layout.slot?_mono more alike.globals
    framesSize := ?_
    frames := fun t slot there => ?_
    closures := fun t => rel_imp (alike.closures t) fun _ _ same => same.mono more
    classes := fun t => rel_imp (alike.classes t) fun _ _ same => same.mono more }⟩
  · simp [Heap.addFrame, size, size']
  · rw [Layout.slot?_append] at there
    rw [Heap.frame?_addFrame, Heap.frame?_addFrame, made, made']
    by_cases new : t.index = L.length
    · have here : t = ⟨L.length⟩ := congrArg Ref.mk new
      rw [if_pos new] at there
      obtain rfl := Option.some.inj there
      exact ⟨_, if_pos here, rfl, if_pos here⟩
    · have apart : t ≠ ⟨L.length⟩ := fun same => new (congrArg Ref.index same)
      rw [if_neg new] at there
      obtain ⟨f, was, parent, was'⟩ := alike.frames t slot there
      exact ⟨f, (if_neg apart).trans was, parent, (if_neg apart).trans was'⟩

theorem addClosure {c c' : Closure} (same : Closure.Same ρ d L c c') :
    (h'.addClosure c').1 = (h.addClosure c).1 ∧ (h.addClosure c).2.Alike ρ d L (h'.addClosure c').2 := by
  have made : (h'.addClosure c').1 = (h.addClosure c).1 := congrArg Ref.mk alike.closuresSize
  refine ⟨made, { alike with closuresSize := ?_, closures := fun t => ?_ }⟩
  · simp [Heap.addClosure, alike.closuresSize]
  · rw [Heap.closure?_addClosure, Heap.closure?_addClosure, made]
    split
    · exact .some same
    · exact alike.closures t

theorem addClass {made made' : ClassObject} (same : made.Alike ρ d L made') :
    (h'.addClass made').1 = (h.addClass made).1 ∧ (h.addClass made).2.Alike ρ d L (h'.addClass made').2 := by
  have ref : (h'.addClass made').1 = (h.addClass made).1 := congrArg Ref.mk alike.classesSize
  refine ⟨ref, { alike with classesSize := ?_, classes := fun t => ?_ }⟩
  · simp [Heap.addClass, alike.classesSize]
  · rw [Heap.classObject?_addClass, Heap.classObject?_addClass, ref]
    split
    · exact .some same
    · exact alike.classes t

theorem addInstance (r : Ref .classObject) :
    (h'.addInstance r).1 = (h.addInstance r).1 ∧ (h.addInstance r).2.Alike ρ d L (h'.addInstance r).2 := by
  unfold Heap.addInstance
  rw [alike.instances]
  exact ⟨rfl, { alike with instances := rfl }⟩

theorem addArray (elements : Array Value) :
    (h'.addArray elements).1 = (h.addArray elements).1 ∧
    (h.addArray elements).2.Alike ρ d L (h'.addArray elements).2 := by
  unfold Heap.addArray
  rw [alike.arrays]
  exact ⟨rfl, { alike with arrays := rfl }⟩

theorem setField (r : Ref .instance) (name : String) (value : Value) :
    (h.setField r name value).Alike ρ d L (h'.setField r name value) := by
  unfold Heap.setField
  rw [alike.instances]
  exact { alike with instances := rfl }

theorem setElement (r : Ref .array) (index : Nat) (value : Value) :
    (h.setElement r index value).Alike ρ d L (h'.setElement r index value) := by
  unfold Heap.setElement
  rw [alike.arrays]
  exact { alike with arrays := rfl }

theorem pushElement (r : Ref .array) (value : Value) :
    (h.pushElement r value).Alike ρ d L (h'.pushElement r value) := by
  unfold Heap.pushElement
  rw [alike.arrays]
  exact { alike with arrays := rfl }

end Heap.Alike

/-! ### Heaps as they are -/

theorem Frame.rename_unmarked (f : Frame) : f.rename ρ false = f := by
  have same : f.bindings.rekey (ρ.name false) = f.bindings := List.map_id _
  rw [Frame.rename, same]

theorem rel_self {α : Type} {R S : α → α → Prop} {a? b? : Option α} (related : Option.Rel R a? b?)
    (step : ∀ a b, a? = some a → R a b → S a a) : Option.Rel S a? a? := by
  cases related with
  | none => exact .none
  | some related => exact .some (step _ _ rfl related)

theorem Closure.Alike.self {c c' : Closure} (alike : c.Alike ρ d L between c') (unmarked : between.Unmarked)
    (known : Distances) : c.Alike ρ known L.unmarked between c := by
  obtain ⟨marks, tracks, -⟩ := alike.decl
  obtain ⟨marks', unmarked', tracks'⟩ := tracks.unmarked
  refine ⟨⟨marks', tracks', .refl c.decl fun marked member => ?_⟩, rfl, rfl⟩
  rcases List.mem_append.mp member with inside | inside
  · exact unmarked marked inside
  · exact unmarked' marked inside

/-- A heap that is like another one is like itself with no variable renamed, whatever distances are known. -/
theorem Heap.Alike.self (alike : h.Alike ρ d L h') (known : Distances) : h.Alike ρ known L.unmarked h := by
  refine ⟨?_, ?_, fun t slot there => ?_, rfl, fun t => ?_, rfl, fun t => ?_, rfl, rfl⟩
  · rw [Layout.slot?_unmarked, alike.globals]
    rfl
  · simpa [Layout.unmarked] using alike.framesSize.1
  · rw [Layout.slot?_unmarked] at there
    obtain ⟨slot, found, rfl⟩ := Option.map_eq_some_iff.mp there
    obtain ⟨f, was, parent, -⟩ := alike.frames t slot found
    exact ⟨f, was, parent, by rw [f.rename_unmarked, was]⟩
  · exact rel_self (alike.closures t) fun _ _ _ same => same.self (by simp [Marks.Unmarked]) known
  · refine rel_self (alike.classes t) fun made made' _ same => ⟨rfl, rfl, fun name => ?_⟩
    exact rel_self (same.methods name) fun _ _ _ method => method.self (by simp [Marks.Unmarked]) known

theorem Heap.start_alike (ρ : Renaming) (d : Distances) : Heap.start.Alike ρ d [⟨none, false⟩] Heap.start := by
  refine ⟨rfl, ⟨rfl, rfl⟩, fun t slot there => ?_, rfl, fun t => ?_, rfl, fun t => ?_, rfl, rfl⟩
  · obtain ⟨index⟩ := t
    cases index with
    | zero =>
      obtain rfl := Option.some.inj there
      exact ⟨_, rfl, rfl, by rw [Frame.rename_unmarked]; rfl⟩
    | succ index => cases there
  · simp [Heap.closure?, Heap.start]
  · simp [Heap.classObject?, Heap.start]

end Heaps

end Lox
