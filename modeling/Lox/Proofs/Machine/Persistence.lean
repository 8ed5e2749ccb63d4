import Lox.Proofs.Machine.Growth
import Lox.Proofs.Machine.Lineage

/-!
What lasts on a heap. Frames stay within the same frames and keep their names bound, and what they bind `this`
and `super` to is settled once they are made. Instances keep their classes and fields, arrays do not get
shorter, and classes and functions stay as they are.
-/

namespace Lox

/-- All frames of a heap are frames of another one, within the same frames and with their names bound. -/
def Heap.PartOf (h h' : Heap) : Prop :=
  ∀ r f, h.frame? r = some f → ∃ f', h'.frame? r = some f' ∧ f'.parent? = f.parent? ∧
    ∀ name, (f.bindings.get? name).isSome → (f'.bindings.get? name).isSome

namespace Heap.PartOf

variable {h h₁ h' : Heap} {r : Ref .frame}

theorem refl (h : Heap) : h.PartOf h :=
  fun _ f found => ⟨f, found, rfl, fun _ bound => bound⟩

theorem trans (first : h.PartOf h₁) (second : h₁.PartOf h') : h.PartOf h' := by
  intro r f found
  obtain ⟨f₁, found₁, parent₁, bound₁⟩ := first r f found
  obtain ⟨f', found', parent', bound'⟩ := second r f₁ found₁
  exact ⟨f', found', parent'.trans parent₁, fun name bound => bound' name (bound₁ name bound)⟩

theorem of_frames (same : h'.frames = h.frames) : h.PartOf h' := by
  intro r f found
  have found' : h'.frame? r = some f := by
    unfold frame? at found ⊢
    rw [same, found]
  exact ⟨f, found', rfl, fun _ bound => bound⟩

theorem addFrame (h : Heap) (parent : Ref .frame) : h.PartOf (h.addFrame parent).2 := by
  intro r f found
  refine ⟨f, ?_, rfl, fun _ bound => bound⟩
  have fresh : r ≠ (h.addFrame parent).1 := by
    rintro rfl
    simp [frame?, Heap.addFrame] at found
  rw [frame?_addFrame, if_neg fresh, found]

theorem bind (h : Heap) (target : Ref .frame) (name : String) (value : Value) :
    h.PartOf (h.bind target name value) := by
  intro r f found
  rw [frame?_bind, found]
  split
  · refine ⟨{ f with bindings := f.bindings.put name value }, rfl, rfl, fun other bound => ?_⟩
    simp only [Table.get?_put]
    split
    · rfl
    · exact bound
  · exact ⟨f, rfl, rfl, fun _ bound => bound⟩

theorem binding (part : h.PartOf h') {name : String} (bound : (h.binding? r name).isSome) :
    (h'.binding? r name).isSome := by
  unfold binding? at bound ⊢
  cases found : h.frame? r with
  | none => simp [found] at bound
  | some f =>
    obtain ⟨f', found', -, kept⟩ := part r f found
    rw [found] at bound
    rw [found']
    exact kept name bound

theorem parent (part : h.PartOf h') {p : Ref .frame} (around : (h.frame? r).bind (·.parent?) = some p) :
    (h'.frame? r).bind (·.parent?) = some p := by
  cases found : h.frame? r with
  | none => simp [found] at around
  | some f =>
    obtain ⟨f', found', same, -⟩ := part r f found
    rw [found] at around
    rw [found']
    exact same.trans around

theorem present (part : h.PartOf h') (there : (h.frame? r).isSome) : (h'.frame? r).isSome := by
  obtain ⟨f, found⟩ := Option.isSome_iff_exists.mp there
  obtain ⟨f', found', -, -⟩ := part r f found
  exact Option.isSome_iff_exists.mpr ⟨f', found'⟩

theorem ancestor (part : h.PartOf h') {n : Nat} {target : Ref .frame} (reached : h.ancestor? r n = some target) :
    h'.ancestor? r n = some target := by
  induction n generalizing r with
  | zero => exact reached
  | succ n ih =>
    obtain ⟨around, parent, onward⟩ := Option.bind_eq_some_iff.mp reached
    rw [ancestor?, part.parent parent]
    exact ih onward

end Heap.PartOf

theorem allows_partOf : Allows fun m m' => m.heap.PartOf m'.heap where
  refl m := .refl m.heap
  trans := .trans
  addFrame m parent := .addFrame m.heap parent
  addClosure _ _ := .of_frames rfl
  addClass _ _ := .of_frames rfl
  addInstance _ _ := .of_frames rfl
  addArray _ _ := .of_frames rfl
  bind m frame name value := .bind m.heap frame name value
  setField _ _ _ _ := .of_frames rfl
  setElement _ _ _ _ := .of_frames rfl
  pushElement _ _ _ := .of_frames rfl
  write _ _ := .of_frames rfl

/-! ### Frames with a binding from the start -/

namespace Heap

theorem binding?_present {h : Heap} {r : Ref .frame} {name : String} {value : Value}
    (found : h.binding? r name = some value) : (h.frame? r).isSome := by
  cases there : h.frame? r with
  | none => simp [binding?, there] at found
  | some f => rfl

/-- A new frame within another one, in which one name is bound. -/
def enclose (h : Heap) (parent : Ref .frame) (name : String) (value : Value) : Ref .frame × Heap :=
  ((h.addFrame parent).1, (h.addFrame parent).2.bind (h.addFrame parent).1 name value)

theorem frame?_enclose (h : Heap) (parent : Ref .frame) (name : String) (value : Value) (r : Ref .frame) :
    (h.enclose parent name value).2.frame? r =
      if r = (h.enclose parent name value).1 then some ⟨some parent, [(name, value)]⟩ else h.frame? r := by
  have same : (h.enclose parent name value).1 = (h.addFrame parent).1 := rfl
  rw [same, enclose, frame?_bind, frame?_addFrame]
  split <;> rfl

theorem binding?_enclose (h : Heap) (parent : Ref .frame) (name : String) (value : Value) (other : String) :
    (h.enclose parent name value).2.binding? (h.enclose parent name value).1 other =
      if other = name then some value else none := by
  rw [binding?, frame?_enclose, if_pos rfl, Option.bind_some]
  by_cases same : other = name
  · simp [Table.get?, same]
  · have apart : name ≠ other := fun back => same back.symm
    simp [Table.get?, same, apart]

theorem frame?_old {h : Heap} {r : Ref .frame} (there : (h.frame? r).isSome) (parent : Ref .frame) :
    r ≠ (h.addFrame parent).1 := by
  rintro rfl
  simp [frame?, addFrame] at there

/-- Whatever the new frame binds, the others bind what they did. -/
theorem binding?_enclose_old {h : Heap} {r : Ref .frame} (there : (h.frame? r).isSome) (parent : Ref .frame)
    (name : String) (value : Value) (other : String) :
    (h.enclose parent name value).2.binding? r other = h.binding? r other := by
  have old : r ≠ (h.enclose parent name value).1 := frame?_old there parent
  rw [binding?, frame?_enclose, if_neg old, binding?]

theorem binding?_addFrame_old {h : Heap} {r : Ref .frame} (there : (h.frame? r).isSome) (parent : Ref .frame)
    (name : String) : (h.addFrame parent).2.binding? r name = h.binding? r name := by
  rw [binding?, frame?_addFrame, if_neg (frame?_old there parent), binding?]

end Heap

/-! ### Heaps that grow -/

/-- A heap has come out of another one by running. -/
structure Heap.Grows (h h' : Heap) : Prop where
  frames : h.PartOf h'
  /-- Frames bind `this` and `super` to what they did, and to nothing if they did not. -/
  fixed : ∀ r name, (h.frame? r).isSome → name = thisName ∨ name = superName → h'.binding? r name = h.binding? r name
  instances : ∀ r i, h.instance? r = some i → ∃ i', h'.instance? r = some i' ∧ i'.classRef = i.classRef ∧
    ∀ name, (i.fields.get? name).isSome → (i'.fields.get? name).isSome
  arrays : ∀ r : Ref .array, r.index < h.arrays.size →
    r.index < h'.arrays.size ∧ (h.elements r).size ≤ (h'.elements r).size
  classes : ∀ r c, h.classObject? r = some c → h'.classObject? r = some c
  closures : ∀ r c, h.closure? r = some c → h'.closure? r = some c

theorem push_getElem? {α : Type} {as : Array α} {i : Nat} {a : α} (found : as[i]? = some a) (last : α) :
    (as.push last)[i]? = some a := by
  obtain ⟨inside, -⟩ := Array.getElem?_eq_some_iff.mp found
  rw [Array.getElem?_push, if_neg (Nat.ne_of_lt inside), found]

namespace Heap.Grows

variable {h h₁ h' : Heap}

theorem refl (h : Heap) : h.Grows h :=
  ⟨.refl h, fun _ _ _ _ => rfl, fun _ i found => ⟨i, found, rfl, fun _ bound => bound⟩,
    fun _ inside => ⟨inside, Nat.le_refl _⟩, fun _ _ found => found, fun _ _ found => found⟩

theorem trans (first : h.Grows h₁) (second : h₁.Grows h') : h.Grows h' where
  frames := first.frames.trans second.frames
  fixed r name there own := (second.fixed r name (first.frames.present there) own).trans (first.fixed r name there own)
  instances r i found := by
    obtain ⟨i₁, found₁, class₁, fields₁⟩ := first.instances r i found
    obtain ⟨i', found', class', fields'⟩ := second.instances r i₁ found₁
    exact ⟨i', found', class'.trans class₁, fun name bound => fields' name (fields₁ name bound)⟩
  arrays r inside := by
    obtain ⟨inside₁, le₁⟩ := first.arrays r inside
    obtain ⟨inside', le'⟩ := second.arrays r inside₁
    exact ⟨inside', Nat.le_trans le₁ le'⟩
  classes r c found := second.classes r c (first.classes r c found)
  closures r c found := second.closures r c (first.closures r c found)

/-- A heap with nothing but other frames. -/
theorem of_framed {frames : Array Frame} (part : h.PartOf { h with frames })
    (fixed : ∀ r name, (h.frame? r).isSome → name = thisName ∨ name = superName →
      ({ h with frames } : Heap).binding? r name = h.binding? r name) : h.Grows { h with frames } :=
  { refl h with frames := part, fixed := fixed }

theorem addFrame (h : Heap) (parent : Ref .frame) : h.Grows (h.addFrame parent).2 :=
  of_framed (.addFrame h parent) fun _ name there _ => binding?_addFrame_old there parent name

theorem enclose (h : Heap) (parent : Ref .frame) (name : String) (value : Value) :
    h.Grows (h.enclose parent name value).2 :=
  of_framed ((PartOf.addFrame h parent).trans (.bind _ _ name value))
    fun _ other there _ => binding?_enclose_old there parent name value other

theorem bind (h : Heap) (target : Ref .frame) {name : String} (proper : name ≠ thisName ∧ name ≠ superName)
    (value : Value) : h.Grows (h.bind target name value) := by
  refine of_framed (.bind h target name value) fun r other _ own => binding?_bind_of_ne h (Or.inr ?_) value
  rintro rfl
  exact own.elim proper.1 proper.2

theorem addClosure (h : Heap) (closure : Closure) : h.Grows (h.addClosure closure).2 :=
  { refl h with closures := fun _ _ found => push_getElem? found closure }

theorem addClass (h : Heap) (made : ClassObject) : h.Grows (h.addClass made).2 :=
  { refl h with classes := fun _ _ found => push_getElem? found made }

theorem addInstance (h : Heap) (classRef : Ref .classObject) : h.Grows (h.addInstance classRef).2 :=
  { refl h with
    instances := fun _ i found => ⟨i, push_getElem? found ⟨classRef, []⟩, rfl, fun _ bound => bound⟩ }

theorem addArray (h : Heap) (elements : Array Value) : h.Grows (h.addArray elements).2 := by
  refine { refl h with arrays := fun r inside => ⟨?_, ?_⟩ }
  · simpa [Heap.addArray] using Nat.lt_succ_of_lt inside
  · have old : r ≠ (h.addArray elements).1 := by
      rintro rfl
      exact Nat.lt_irrefl _ inside
    exact Nat.le_of_eq (by rw [elements_addArray, if_neg old])

theorem setField (h : Heap) (target : Ref .instance) (name : String) (value : Value) :
    h.Grows (h.setField target name value) := by
  refine { refl h with instances := fun r i found => ?_ }
  rw [instance?_setField, found]
  split
  · refine ⟨{ i with fields := i.fields.put name value }, rfl, rfl, fun other bound => ?_⟩
    simp only [Table.get?_put]
    split
    · rfl
    · exact bound
  · exact ⟨i, rfl, rfl, fun _ bound => bound⟩

theorem setElement (h : Heap) (target : Ref .array) (index : Nat) (value : Value) :
    h.Grows (h.setElement target index value) := by
  refine { refl h with arrays := fun r inside => ⟨?_, ?_⟩ }
  · simpa [Heap.setElement] using inside
  · rw [elements_setElement]
    split
    · exact Nat.le_of_eq Array.size_setIfInBounds.symm
    · exact Nat.le_refl _

theorem pushElement (h : Heap) (target : Ref .array) (value : Value) : h.Grows (h.pushElement target value) := by
  refine { refl h with arrays := fun r inside => ⟨?_, ?_⟩ }
  · simpa [Heap.pushElement] using inside
  · by_cases same : r = target
    · rw [elements_pushElement h (same ▸ inside), if_pos same, Array.size_push]
      exact Nat.le_succ _
    · have other : (h.pushElement target value).arrays[r.index]? = h.arrays[r.index]? := by
        have apart : target.index ≠ r.index := fun back => same (by cases r; cases target; exact congrArg _ back.symm)
        rw [Heap.pushElement, Array.getElem?_modify, if_neg apart]
      exact Nat.le_of_eq (by rw [elements, elements, other])

/-! ### What lasts -/

variable {r : Ref .frame} {c s : Ref .classObject} {name : String} {value : Value} {method : Closure}

theorem this (grows : h.Grows h') (bound : h.binding? r thisName = some value) : h'.binding? r thisName = some value :=
  (grows.fixed r thisName (binding?_present bound) (Or.inl rfl)).trans bound

theorem ownMethod? (grows : h.Grows h') (own : h.ownMethod? name c = some method) :
    h'.ownMethod? name c = some method := by
  obtain ⟨made, found, has⟩ := Option.bind_eq_some_iff.mp own
  rw [Heap.ownMethod?, grows.classes c made found]
  exact has

theorem link (grows : h.Grows h') (link : h.Extends c s) : h'.Extends c s := by
  obtain ⟨made, found, superclass⟩ := Option.bind_eq_some_iff.mp link
  rw [Extends, grows.classes c made found]
  exact superclass

theorem reaches (grows : h.Grows h') (reaches : h.Reaches c s) : h'.Reaches c s :=
  Relation.ReflTransGen.mono (fun _ _ => grows.link) c s reaches

end Heap.Grows

/-! ### Machines that grow -/

/-- A machine has come out of another one by running. -/
structure Machine.Grows (m m' : Machine) : Prop where
  heap : m.heap.Grows m'.heap
  output : ∃ more, m'.output.written = m.output.written ++ more

theorem Machine.Grows.refl (m : Machine) : m.Grows m :=
  ⟨.refl m.heap, .empty, ByteArray.append_empty.symm⟩

theorem Machine.Grows.trans {m₁ m₂ m₃ : Machine} (first : m₁.Grows m₂) (second : m₂.Grows m₃) : m₁.Grows m₃ := by
  obtain ⟨heap, more, written⟩ := first
  obtain ⟨heap', more', written'⟩ := second
  exact ⟨heap.trans heap', more ++ more', by rw [written', written, ByteArray.append_assoc]⟩

/-- Where only the heap changes nothing is written. -/
theorem Machine.Grows.of_heap {m : Machine} {h : Heap} (heap : m.heap.Grows h) : m.Grows { m with heap := h } :=
  ⟨heap, .empty, ByteArray.append_empty.symm⟩

theorem Machine.Grows.write (m : Machine) (bytes : ByteArray) :
    m.Grows { m with output := (m.output.write bytes).2 } :=
  ⟨.refl m.heap, m.output.fitting bytes, rfl⟩

end Lox
