import Lox.Proofs.Machine.Ownership

/-!
No reference dangles. Every value that a heap holds is of an object that the heap has, and so is every value
that a run gives. Objects are never removed, so what is there at one point of a run is there at all later ones.
-/

namespace Lox

open Contract Run

/-! ### Closed heaps -/

/-- The object of a value is there. -/
def Value.Present (h : Heap) : Value → Prop
  | .function r => r.index < h.closures.size
  | .classObject r => r.index < h.classes.size
  | .instance r => r.index < h.instances.size
  | .array r => r.index < h.arrays.size
  | .nil | .bool _ | .number _ | .string _ | .native _ => True

/-- Whatever objects a heap has another one has as well. -/
def Heap.Retains (h h' : Heap) : Prop :=
  ∀ v : Value, v.Present h → v.Present h'

/-- All that a heap refers to is there. -/
structure Heap.Closed (h : Heap) : Prop where
  bindings : ∀ r name v, h.binding? r name = some v → v.Present h
  fields : ∀ r i name v, h.instance? r = some i → i.fields.get? name = some v → v.Present h
  elements : ∀ r, ∀ v ∈ h.elements r, v.Present h
  classes : ∀ r i, h.instance? r = some i → (Value.classObject i.classRef).Present h

/-- Frames aside, which no value is a reference to, an object is there. -/
def Object.Present (h : Heap) : Object → Prop
  | .frame _ => True
  | o => h.Has o

section Closed

variable {h h' : Heap} {o o' target : Object} {v : Value}

theorem Value.present_iff : v.Present h ↔ v.Owned (Object.Present h) := by
  cases v <;> simp [Value.Present, Value.Owned, Value.object?, Object.Present, Heap.Has]

theorem Object.Present.covers (there : o.Present h) (covers : ∀ o, h.Has o → h'.Has o) : o.Present h' := by
  cases o with
  | frame r => trivial
  | closure r => exact covers (.closure r) there
  | classObject r => exact covers (.classObject r) there
  | «instance» r => exact covers (.instance r) there
  | array r => exact covers (.array r) there

theorem Heap.Retains.of_covers (covers : ∀ o, h.Has o → h'.Has o) : h.Retains h' := by
  intro v there
  refine Value.present_iff.mpr fun o is => ?_
  exact (Value.present_iff.mp there o is).covers covers

theorem Heap.Retains.object (retains : h.Retains h') (there : o.Present h) : o.Present h' := by
  cases o with
  | frame r => trivial
  | closure r => exact retains (.function r) there
  | classObject r => exact retains (.classObject r) there
  | «instance» r => exact retains (.instance r) there
  | array r => exact retains (.array r) there

theorem Heap.Closed.link (closed : h.Closed) (notClass : ∀ r, o ≠ .classObject r) (link : h.Links o o') :
    o'.Present h := by
  cases link with
  | parent => trivial
  | binding found is => exact Value.present_iff.mp (closed.bindings _ _ _ found) _ is
  | scope => trivial
  | ofClass => exact absurd rfl (notClass _)
  | classOf there => exact closed.classes _ _ there
  | field there has is => exact Value.present_iff.mp (closed.fields _ _ _ _ there has) _ is
  | element member is => exact Value.present_iff.mp (closed.elements _ _ member) _ is

/-- A heap is closed if all links, those of classes aside, lead to what is there. -/
theorem Heap.Closed.of_links (links : ∀ o o', (∀ r, o ≠ .classObject r) → h.Links o o' → o'.Present h) : h.Closed := by
  refine ⟨fun r name v found => ?_, fun r i name v there has => ?_, fun r v member => ?_, fun r i there => ?_⟩
  · exact Value.present_iff.mpr fun o is => links (.frame r) o (fun _ => nofun) (.binding found is)
  · exact Value.present_iff.mpr fun o is => links (.instance r) o (fun _ => nofun) (.field there has is)
  · exact Value.present_iff.mpr fun o is => links (.array r) o (fun _ => nofun) (.element member is)
  · exact links (.instance r) _ (fun _ => nofun) (.classOf there)

/-- A heap stays closed if a change refers only to what is there. -/
theorem Heap.Closed.extended {more : Object → Prop} (closed : h.Closed) (extended : h.Extended h' target more)
    (refers : ∀ o, more o → o.Present h) : h'.Closed := by
  refine .of_links fun o o' notClass link => Object.Present.covers ?_ extended.covers
  by_cases same : o = target
  · subst same
    rcases extended.links o' link with old | new
    · exact closed.link notClass old
    · exact refers o' new
  · exact closed.link notClass (Links.of_unchanged (extended.unchanged o same) link)

theorem Heap.closed_start : Heap.start.Closed := by
  refine ⟨fun r name v found => ?_, fun r i name v found => ?_, fun r v member => ?_, fun r i found => ?_⟩
  · obtain ⟨index⟩ := r
    cases index with
    | zero =>
      change Table.get? name [("len", .native .len), ("push", .native .push)] = some v at found
      unfold Table.get? Table.get? at found
      split at found
      · obtain rfl := Option.some.inj found
        trivial
      split at found
      · obtain rfl := Option.some.inj found
        trivial
      · cases found
    | succ index => simp [binding?, frame?, start] at found
  · simp [instance?, start] at found
  · simp [elements, start] at member
  · simp [instance?, start] at found

end Closed

/-! ### Runs -/

/-- What is given to a function that is called is there. -/
def Point.Given : Point → Prop
  | ⟨.invoke _ arguments, m⟩ => ∀ v ∈ arguments, v.Present m.heap
  | _ => True

/-- Runs keep heaps closed and lose no object. -/
def presenceContract (distances : Distances) : Contract where
  distances
  visited _ := True
  expects := Point.Given
  holds m := m.heap.Closed
  grows m m' := m.heap.Retains m'.heap
  refl _ := fun _ there => there
  trans first second := fun v there => second v (first v there)

/-- The value that a run gives is there. -/
def Gives (v : Value) (m : Machine) : Prop :=
  v.Present m.heap

/-- So is the value that a statement returns. -/
def GivesBack (flow : Flow) (m : Machine) : Prop :=
  ∀ v, flow = .returned v → v.Present m.heap

variable {distances : Distances} {n : Nat} {m : Machine} {frame : Ref .frame} {α : Type}

abbrev PresenceSafe (distances : Distances) (n : Nat) (x : Evaluator → Run α) (m : Machine)
    (post : α → Machine → Prop) : Prop :=
  (presenceContract distances).Safe n x m post

/-- What is there counts as owned, and so do all frames. -/
theorem presence_owns (distances : Distances) :
    (presenceContract distances).Owns fun m o => o.Present m.heap where
  expects := by
    intro task m given _
    cases task with
    | invoke closure arguments =>
      exact fun v member => Value.present_iff.mpr fun o is => given o (Or.inr ⟨v, member, is⟩)
    | _ => trivial
  globals _ := trivial
  stays retains there := Heap.Retains.object retains there
  follows closed _ notClass link := Heap.Closed.link closed notClass link
  method _ _ _ := trivial
  grows extended := .of_covers extended.covers
  changes closed extended _ refers := Heap.Closed.extended closed extended refers
  made := by
    intro m h' target more _ makes
    cases target with
    | frame r => trivial
    | _ => exact makes.there
  written _ closed := ⟨closed, fun _ there => there⟩

/-- The values that an evaluator of some depth gives are there. -/
structure KeepsPresence (distances : Distances) (n : Nat) : Prop where
  expr : ∀ {m frame e}, PresenceSafe distances n (fun self => self.expr frame e) m Gives
  stmt : ∀ {m frame s}, PresenceSafe distances n (fun self => self.stmt frame s) m GivesBack
  invoke : ∀ {m closure arguments}, (∀ v ∈ arguments, Gives v m) →
    PresenceSafe distances n (fun self => self.invoke closure arguments) m Gives

theorem gives_of_owned {v : Value} (own : v.Owned (Object.Present m.heap)) : Gives v m :=
  Value.present_iff.mpr own

theorem presence_invokeClosure (closure : Closure) {arguments : List Value} (given : ∀ v ∈ arguments, Gives v m) :
    PresenceSafe distances n (fun self => self.invokeClosure closure arguments) m Gives := by
  have rules := presence_owns distances
  have own : Object.Present m.heap (.frame closure.scope) := trivial
  have called := (keeps_owned rules n).invokeClosure rules own fun v member => Value.present_iff.mp (given v member)
  exact called.imp fun _ _ _ _ own => gives_of_owned own

/-- Whatever is run, to whatever depth, gives values that are there. -/
theorem keeps_presence (distances : Distances) (n : Nat) : KeepsPresence distances n where
  expr := ((keeps_owned (presence_owns distances) n).expr trivial).imp fun _ _ _ _ own => gives_of_owned own
  stmt := ((keeps_owned (presence_owns distances) n).stmt trivial).imp fun _ _ _ _ own v same =>
    gives_of_owned (own v same)
  invoke given :=
    ((keeps_owned (presence_owns distances) n).invoke trivial fun v member => Value.present_iff.mp (given v member)).imp
      fun _ _ _ _ own => gives_of_owned own

/-- So does a program leave a heap closed, at all points of its run. -/
theorem presence_interpret (distances : Distances) (program : List Stmt) (n : Nat) (m : Machine) :
    PresenceSafe distances n (fun self => interpret self program) m fun _ _ => True :=
  owned_interpret (presence_owns distances) program n m

end Lox
