import Mathlib.Logic.Relation
import Lox.Proofs.Machine.Lineage

/-!
Objects and the links between them. A frame links to the frame around it and to what it binds, a closure to
its scope, a class to its superclass and to the scopes of its methods, an instance to its class and to what its
fields hold, and an array to its elements. A change to a heap touches one object, and links it to no more than
what is put there.
-/

namespace Lox

/-- An object of a heap. -/
inductive Object
  | frame (r : Ref .frame)
  | closure (r : Ref .closure)
  | classObject (r : Ref .classObject)
  | «instance» (r : Ref .instance)
  | array (r : Ref .array)

/-- The object that a value is a reference to. -/
def Value.object? : Value → Option Object
  | .function r => some (.closure r)
  | .classObject r => some (.classObject r)
  | .instance r => some (.instance r)
  | .array r => some (.array r)
  | .nil | .bool _ | .number _ | .string _ | .native _ => none

/-- The objects that a class refers to. -/
inductive ClassObject.Links (c : ClassObject) : Object → Prop
  | superclass {s} : c.superclass? = some s → Links c (.classObject s)
  | method {name method} : c.methods.get? name = some method → Links c (.frame method.scope)

namespace Heap

/-- Whether an object has been made. -/
def Has (h : Heap) : Object → Prop
  | .frame r => r.index < h.frames.size
  | .closure r => r.index < h.closures.size
  | .classObject r => r.index < h.classes.size
  | .instance r => r.index < h.instances.size
  | .array r => r.index < h.arrays.size

/-- An object refers to another one. -/
inductive Links (h : Heap) : Object → Object → Prop
  | parent {r p} : (h.frame? r).bind (·.parent?) = some p → Links h (.frame r) (.frame p)
  | binding {r name v o} : h.binding? r name = some v → v.object? = some o → Links h (.frame r) o
  | scope {r c} : h.closure? r = some c → Links h (.closure r) (.frame c.scope)
  | ofClass {r c o} : h.classObject? r = some c → c.Links o → Links h (.classObject r) o
  | classOf {r i} : h.instance? r = some i → Links h (.instance r) (.classObject i.classRef)
  | field {r i name v o} : h.instance? r = some i → i.fields.get? name = some v → v.object? = some o →
    Links h (.instance r) o
  | element {r v o} : v ∈ h.elements r → v.object? = some o → Links h (.array r) o

/-- Some links, or none, lead from an object to another one. -/
abbrev Leads (h : Heap) : Object → Object → Prop :=
  Relation.ReflTransGen h.Links

end Heap

/-- An object is on another heap as it is on this one. -/
def Object.Unchanged (h h' : Heap) : Object → Prop
  | .frame r => h'.frame? r = h.frame? r
  | .closure r => h'.closure? r = h.closure? r
  | .classObject r => h'.classObject? r = h.classObject? r
  | .instance r => h'.instance? r = h.instance? r
  | .array r => h'.elements r = h.elements r

theorem Object.Unchanged.trans {h h₁ h' : Heap} {o : Object} (first : o.Unchanged h h₁)
    (second : o.Unchanged h₁ h') : o.Unchanged h h' := by
  cases o <;> exact Eq.trans second first

namespace Heap

variable {h h' : Heap} {o o' : Object}

/-! ### Links -/

theorem Links.superclass {r s : Ref .classObject} (link : h.Extends r s) :
    h.Links (.classObject r) (.classObject s) := by
  obtain ⟨c, there, is⟩ := Option.bind_eq_some_iff.mp link
  exact .ofClass there (.superclass is)

theorem Links.method {r : Ref .classObject} {name : String} {method : Closure}
    (own : h.ownMethod? name r = some method) : h.Links (.classObject r) (.frame method.scope) := by
  obtain ⟨c, there, is⟩ := Option.bind_eq_some_iff.mp own
  exact .ofClass there (.method is)

theorem mem_elements_has {r : Ref .array} {v : Value} (member : v ∈ h.elements r) : h.Has (.array r) := by
  refine Nat.lt_of_not_le fun beyond => ?_
  rw [elements, Array.getElem?_eq_none beyond] at member
  exact Array.not_mem_empty v member

/-- Only objects that have been made refer to others. -/
theorem Links.has (link : h.Links o o') : h.Has o := by
  cases link with
  | parent found =>
    obtain ⟨f, there, -⟩ := Option.bind_eq_some_iff.mp found
    exact (Array.getElem?_eq_some_iff.mp there).1
  | binding found _ =>
    obtain ⟨f, there, -⟩ := Option.bind_eq_some_iff.mp found
    exact (Array.getElem?_eq_some_iff.mp there).1
  | scope there => exact (Array.getElem?_eq_some_iff.mp there).1
  | ofClass there _ => exact (Array.getElem?_eq_some_iff.mp there).1
  | classOf there => exact (Array.getElem?_eq_some_iff.mp there).1
  | field there _ _ => exact (Array.getElem?_eq_some_iff.mp there).1
  | element member _ => exact mem_elements_has member

/-- What an object refers to is a matter of its contents. -/
theorem Links.of_unchanged (same : o.Unchanged h h') (link : h'.Links o o') : h.Links o o' := by
  cases link with
  | parent found =>
    rw [same] at found
    exact .parent found
  | binding found is =>
    rw [binding?, same] at found
    exact .binding found is
  | scope there =>
    rw [same] at there
    exact .scope there
  | ofClass there is =>
    rw [same] at there
    exact .ofClass there is
  | classOf there =>
    rw [same] at there
    exact .classOf there
  | field there has is =>
    rw [same] at there
    exact .field there has is
  | element member is =>
    rw [same] at member
    exact .element member is

/-! ### Changes -/

/-- Another heap has all objects of a heap, of which only a target may differ, and the target refers to no more
than it did and what is said. -/
structure Extended (h h' : Heap) (target : Object) (more : Object → Prop) : Prop where
  covers : ∀ o, h.Has o → h'.Has o
  unchanged : ∀ o, o ≠ target → o.Unchanged h h'
  links : ∀ o, h'.Links target o → h.Links target o ∨ more o

/-- Another heap has one object more than a heap, which refers to what is said. -/
structure Makes (h h' : Heap) (made : Object) (more : Object → Prop) : Prop extends h.Extended h' made more where
  fresh : ¬ h.Has made
  there : h'.Has made

section Changes

variable (h)

theorem makes_addFrame (parent : Ref .frame) :
    h.Makes (h.addFrame parent).2 (.frame (h.addFrame parent).1) (· = .frame parent) where
  fresh := Nat.lt_irrefl _
  there := by simp [Has, addFrame]
  covers o there := by
    cases o with
    | frame r => exact Nat.lt_of_lt_of_le there (by simp [addFrame])
    | _ => exact there
  unchanged o other := by
    cases o with
    | frame r => exact (h.frame?_addFrame parent r).trans (if_neg fun same => other (congrArg _ same))
    | _ => rfl
  links o link := by
    cases link with
    | parent found =>
      rw [frame?_addFrame, if_pos rfl] at found
      exact Or.inr (congrArg _ (Option.some.inj found).symm)
    | binding found _ =>
      rw [binding?, frame?_addFrame, if_pos rfl] at found
      cases found

theorem makes_addClosure (c : Closure) :
    h.Makes (h.addClosure c).2 (.closure (h.addClosure c).1) (· = .frame c.scope) where
  fresh := Nat.lt_irrefl _
  there := by simp [Has, addClosure]
  covers o there := by
    cases o with
    | closure r => exact Nat.lt_of_lt_of_le there (by simp [addClosure])
    | _ => exact there
  unchanged o other := by
    cases o with
    | closure r => exact (h.closure?_addClosure c r).trans (if_neg fun same => other (congrArg _ same))
    | _ => rfl
  links o link := by
    cases link with
    | scope there =>
      rw [closure?_addClosure, if_pos rfl] at there
      obtain rfl := Option.some.inj there
      exact Or.inr rfl

theorem makes_addClass (c : ClassObject) :
    h.Makes (h.addClass c).2 (.classObject (h.addClass c).1) c.Links where
  fresh := Nat.lt_irrefl _
  there := by simp [Has, addClass]
  covers o there := by
    cases o with
    | classObject r => exact Nat.lt_of_lt_of_le there (by simp [addClass])
    | _ => exact there
  unchanged o other := by
    cases o with
    | classObject r => exact (h.classObject?_addClass c r).trans (if_neg fun same => other (congrArg _ same))
    | _ => rfl
  links o link := by
    cases link with
    | ofClass there is =>
      rw [classObject?_addClass, if_pos rfl] at there
      obtain rfl := Option.some.inj there
      exact Or.inr is

theorem makes_addInstance (classRef : Ref .classObject) :
    h.Makes (h.addInstance classRef).2 (.instance (h.addInstance classRef).1) (· = .classObject classRef) where
  fresh := Nat.lt_irrefl _
  there := by simp [Has, addInstance]
  covers o there := by
    cases o with
    | «instance» r => exact Nat.lt_of_lt_of_le there (by simp [addInstance])
    | _ => exact there
  unchanged o other := by
    cases o with
    | «instance» r => exact (h.instance?_addInstance classRef r).trans (if_neg fun same => other (congrArg _ same))
    | _ => rfl
  links o link := by
    cases link with
    | classOf there =>
      rw [instance?_addInstance, if_pos rfl] at there
      obtain rfl := Option.some.inj there
      exact Or.inr rfl
    | field there has _ =>
      rw [instance?_addInstance, if_pos rfl] at there
      obtain rfl := Option.some.inj there
      cases has

theorem makes_addArray (es : Array Value) :
    h.Makes (h.addArray es).2 (.array (h.addArray es).1) fun o => ∃ v ∈ es, v.object? = some o where
  fresh := Nat.lt_irrefl _
  there := by simp [Has, addArray]
  covers o there := by
    cases o with
    | array r => exact Nat.lt_of_lt_of_le there (by simp [addArray])
    | _ => exact there
  unchanged o other := by
    cases o with
    | array r => exact (h.elements_addArray es r).trans (if_neg fun same => other (congrArg _ same))
    | _ => rfl
  links o link := by
    cases link with
    | element member is =>
      rw [elements_addArray, if_pos rfl] at member
      exact Or.inr ⟨_, member, is⟩

theorem extended_bind (target : Ref .frame) (name : String) (value : Value) :
    h.Extended (h.bind target name value) (.frame target) fun o => value.object? = some o where
  covers o there := by
    cases o with
    | frame r => exact Nat.lt_of_lt_of_le there (by simp [bind])
    | _ => exact there
  unchanged o other := by
    cases o with
    | frame r => exact (h.frame?_bind target name value r).trans (if_neg fun same => other (congrArg _ same))
    | _ => rfl
  links o link := by
    cases link with
    | parent found =>
      rw [parent?_bind] at found
      exact Or.inl (.parent found)
    | @binding r bound v o found is =>
      rw [binding?, frame?_bind, if_pos rfl] at found
      obtain ⟨f', changed, has⟩ := Option.bind_eq_some_iff.mp found
      obtain ⟨f, there, rfl⟩ := Option.map_eq_some_iff.mp changed
      rw [Table.get?_put] at has
      split at has
      · obtain rfl := Option.some.inj has
        exact Or.inr is
      · exact Or.inl (.binding (Option.bind_eq_some_iff.mpr ⟨f, there, has⟩) is)

theorem extended_setField (target : Ref .instance) (name : String) (value : Value) :
    h.Extended (h.setField target name value) (.instance target) fun o => value.object? = some o where
  covers o there := by
    cases o with
    | «instance» r => exact Nat.lt_of_lt_of_le there (by simp [setField])
    | _ => exact there
  unchanged o other := by
    cases o with
    | «instance» r =>
      exact (h.instance?_setField target name value r).trans (if_neg fun same => other (congrArg _ same))
    | _ => rfl
  links o link := by
    cases link with
    | classOf there =>
      rw [instance?_setField, if_pos rfl] at there
      obtain ⟨i, before, rfl⟩ := Option.map_eq_some_iff.mp there
      have link : h.Links (.instance target) (.classObject i.classRef) := .classOf before
      exact Or.inl link
    | field there has is =>
      rw [instance?_setField, if_pos rfl] at there
      obtain ⟨i, before, rfl⟩ := Option.map_eq_some_iff.mp there
      rw [Table.get?_put] at has
      split at has
      · obtain rfl := Option.some.inj has
        exact Or.inr is
      · exact Or.inl (.field before has is)

theorem extended_setElement (target : Ref .array) (index : Nat) (value : Value) :
    h.Extended (h.setElement target index value) (.array target) fun o => value.object? = some o where
  covers o there := by
    cases o with
    | array r => exact Nat.lt_of_lt_of_le there (by simp [setElement])
    | _ => exact there
  unchanged o other := by
    cases o with
    | array r =>
      exact (h.elements_setElement target index value r).trans (if_neg fun same => other (congrArg _ same))
    | _ => rfl
  links o link := by
    cases link with
    | element member is =>
      rw [elements_setElement, if_pos rfl] at member
      rcases Array.mem_or_eq_of_mem_setIfInBounds member with old | rfl
      · exact Or.inl (.element old is)
      · exact Or.inr is

/-- An array that has not been made does not come to be by a push. -/
theorem pushElement_absent {target : Ref .array} (absent : ¬ h.Has (.array target)) (value : Value) :
    h.pushElement target value = h := by
  have beyond : h.arrays.size ≤ target.index := Nat.le_of_not_lt absent
  have same : h.arrays.modify target.index (fun es => es.push value) = h.arrays := by
    refine Array.ext (by simp) fun i here there => ?_
    rw [Array.getElem_modify, if_neg (Nat.ne_of_gt (Nat.lt_of_lt_of_le there beyond))]
  rw [pushElement, same]

theorem extended_pushElement (target : Ref .array) (value : Value) :
    h.Extended (h.pushElement target value) (.array target) fun o => value.object? = some o := by
  by_cases present : h.Has (.array target)
  · refine ⟨fun o there => ?_, fun o other => ?_, fun o link => ?_⟩
    · cases o with
      | array r => exact Nat.lt_of_lt_of_le there (by simp [pushElement])
      | _ => exact there
    · cases o with
      | array r => exact (h.elements_pushElement present value r).trans (if_neg fun same => other (congrArg _ same))
      | _ => rfl
    · cases link with
      | element member is =>
        rw [elements_pushElement h present, if_pos rfl] at member
        rcases Array.mem_push.mp member with old | rfl
        · exact Or.inl (.element old is)
        · exact Or.inr is
  · rw [pushElement_absent h present]
    refine ⟨fun _ there => there, fun o _ => ?_, fun _ => Or.inl⟩
    cases o <;> rfl

end Changes

end Heap

end Lox
