import Lox.Proofs.Machine.Layout
import Lox.Proofs.Scope.Deepening

/-!
Heaps with further frames. A framing says of each frame of the other heap for which frame of the given one it
stands, or that it is a further one, in which nothing is bound. Two heaps are framed by it if they are the same
but for the further frames and for functions, which are the same but for loops written out. Framings only grow,
by the frames that are made.
-/

namespace Lox

/-! ### Framings -/

/-- What a frame of the other heap is for. -/
inductive Role
  /-- It has the variables of a frame of the given heap, and both are within such frames or are global. -/
  | shared (r : Ref .frame) (around? : Option (Ref .frame × Ref .frame))
  /-- It has no variables. -/
  | further (around : Ref .frame)

/-- The roles of the frames of a heap, in the order in which they were made. -/
abbrev Framing : Type :=
  List Role

namespace Framing

variable {F F' : Framing} {r r' : Ref .frame} {gaps : Gaps}

def role? (F : Framing) (r : Ref .frame) : Option Role :=
  F[r.index]?

/-- From two frames outwards there are frames for the same scopes, up to the global ones, and further ones in the
other heap. -/
inductive Tracks (F : Framing) : Ref .frame → Ref .frame → Gaps → Prop
  | globals : F.role? Heap.globals = some (.shared Heap.globals none) → F.Tracks Heap.globals Heap.globals []
  | inner {r r' around around' : Ref .frame} {gaps : Gaps} :
    F.role? r' = some (.shared r (some (around, around'))) → F.Tracks around around' gaps →
    F.Tracks r r' (false :: gaps)
  | further {r r' around' : Ref .frame} {gaps : Gaps} : F.role? r' = some (.further around') →
    F.Tracks r around' (false :: gaps) → F.Tracks r r' (true :: gaps)

theorem role?_mono {role : Role} (more : F <+: F') (found : F.role? r = some role) : F'.role? r = some role := by
  obtain ⟨added, rfl⟩ := more
  obtain ⟨inside, -⟩ := List.getElem?_eq_some_iff.mp found
  exact (List.getElem?_append_left inside).trans found

theorem Tracks.mono (tracks : F.Tracks r r' gaps) (more : F <+: F') : F'.Tracks r r' gaps := by
  induction tracks with
  | globals found => exact .globals (role?_mono more found)
  | inner found _ ih => exact .inner (role?_mono more found) ih
  | further found _ ih => exact .further (role?_mono more found) ih

/-- A frame of the other heap has the variables of one of the given heap. -/
def Shares (F : Framing) (r r' : Ref .frame) : Prop :=
  ∃ around?, F.role? r' = some (.shared r around?)

theorem Shares.mono (shares : F.Shares r r') (more : F <+: F') : F'.Shares r r' := by
  obtain ⟨around?, found⟩ := shares
  exact ⟨around?, role?_mono more found⟩

/-- A frame is shared if there is no further one within its scope. -/
theorem Tracks.shared (tracks : F.Tracks r r' gaps) (innermost : gaps.headD false = false) : F.Shares r r' := by
  cases tracks with
  | globals found => exact ⟨none, found⟩
  | inner found _ => exact ⟨some _, found⟩
  | further _ _ => cases innermost

theorem role?_append (F : Framing) (role : Role) (r : Ref .frame) :
    Framing.role? (F ++ [role]) r = if r.index = F.length then some role else F.role? r := by
  unfold role?
  split
  · next same => simp [same]
  · next other =>
    by_cases inside : r.index < F.length
    · exact List.getElem?_append_left inside
    · have beyond : F.length + 1 ≤ r.index := by omega
      rw [List.getElem?_eq_none (by simpa using beyond), List.getElem?_eq_none (by omega)]

/-- Frames that are made within others. -/
theorem Tracks.enter (tracks : F.Tracks r r' gaps) (inner : Ref .frame) :
    Tracks (F ++ [.shared inner (some (r, r'))]) inner ⟨F.length⟩ (false :: gaps) :=
  .inner (by simp [role?]) (tracks.mono (List.prefix_append _ _))

/-- A further frame that is made within a shared one. -/
theorem Tracks.within (tracks : F.Tracks r r' (false :: gaps)) :
    Tracks (F ++ [.further r']) r ⟨F.length⟩ (true :: gaps) :=
  .further (by simp [role?]) (tracks.mono (List.prefix_append _ _))

end Framing

/-! ### Framed heaps -/

section Framed

variable (K : Bearings) (F : Framing)

/-- A function with loops written out, where the frames around its declaration are. Between its frame and its
declaration there are some scopes with frames to come. -/
structure Closure.Framed (between : Gaps) (c c' : Closure) : Prop where
  decl : ∃ gaps : Gaps, F.Tracks c.scope c'.scope gaps ∧ gaps.headD false = false ∧
    c.decl.Deepens K.Moved (between ++ gaps) c'.decl
  isInitializer : c'.isInitializer = c.isInitializer

structure ClassObject.Framed (made made' : ClassObject) : Prop where
  name : made'.name = made.name
  superclass? : made'.superclass? = made.superclass?
  methods : ∀ name, Option.Rel (Closure.Framed K F [false]) (made.methods.get? name) (made'.methods.get? name)

structure Heap.Framed (h h' : Heap) : Prop where
  globals : F.role? Heap.globals = some (.shared Heap.globals none)
  framesSize : h'.frames.size = F.length
  /-- No two frames stand for the same one. -/
  once : ∀ {r r' t' around? other?}, F.role? r' = some (.shared r around?) → F.role? t' = some (.shared r other?) →
    t' = r'
  shared : ∀ {r r' around?}, F.role? r' = some (.shared r around?) → ∃ bindings,
    h.frame? r = some ⟨around?.map Prod.fst, bindings⟩ ∧ h'.frame? r' = some ⟨around?.map Prod.snd, bindings⟩
  further : ∀ {r' around}, F.role? r' = some (.further around) → h'.frame? r' = some ⟨some around, []⟩
  closuresSize : h'.closures.size = h.closures.size
  closures : ∀ r, Option.Rel (Closure.Framed K F []) (h.closure? r) (h'.closure? r)
  classesSize : h'.classes.size = h.classes.size
  classes : ∀ r, Option.Rel (ClassObject.Framed K F) (h.classObject? r) (h'.classObject? r)
  instances : h'.instances = h.instances
  arrays : h'.arrays = h.arrays

end Framed

section Heaps

variable {K : Bearings} {F F' : Framing} {h h' : Heap} {r r' : Ref .frame} {gaps between : Gaps}

theorem FunctionDecl.Deepens.arity {R : Gaps → Use → Use → Prop} {f f' : FunctionDecl} (deepens : f.Deepens R gaps f') :
    f'.params.length = f.params.length := by
  cases deepens
  rfl

theorem FunctionDecl.Deepens.name {R : Gaps → Use → Use → Prop} {f f' : FunctionDecl} (deepens : f.Deepens R gaps f') :
    f'.name = f.name := by
  cases deepens
  rfl

namespace Closure.Framed

variable {c c' : Closure} (framed : c.Framed K F between c')
include framed

theorem mono (more : F <+: F') : c.Framed K F' between c' := by
  obtain ⟨gaps, tracks, innermost, deepens⟩ := framed.decl
  exact { framed with decl := ⟨gaps, tracks.mono more, innermost, deepens⟩ }

/-- What is known may grow by references that are not handed out yet. -/
theorem known {K' : Bearings} (grows : ∀ gaps use use', K.Moved gaps use use' → K'.Moved gaps use use') :
    c.Framed K' F between c' := by
  obtain ⟨gaps, tracks, innermost, deepens⟩ := framed.decl
  exact { framed with decl := ⟨gaps, tracks, innermost, deepens.mono c.decl grows⟩ }

theorem arity : c'.decl.params.length = c.decl.params.length := by
  obtain ⟨gaps, -, -, deepens⟩ := framed.decl
  exact deepens.arity

theorem name : c'.decl.name = c.decl.name := by
  obtain ⟨gaps, -, -, deepens⟩ := framed.decl
  exact deepens.name

end Closure.Framed

theorem ClassObject.Framed.mono {made made' : ClassObject} (framed : made.Framed K F made') (more : F <+: F') :
    made.Framed K F' made' :=
  { framed with methods := fun name => rel_imp (framed.methods name) fun _ _ same => same.mono more }

namespace Heap.Framed

variable (framed : h.Framed K F h')
include framed

theorem known {K' : Bearings} (grows : ∀ gaps use use', K.Moved gaps use use' → K'.Moved gaps use use') :
    h.Framed K' F h' := by
  refine { framed with
    closures := fun r => rel_imp (framed.closures r) fun _ _ same => same.known grows
    classes := fun r => rel_imp (framed.classes r) fun made made' same =>
      ⟨same.name, same.superclass?, fun name => ?_⟩ }
  exact rel_imp (same.methods name) fun _ _ method => method.known grows

/-! ### What is read -/

/-- Going outwards leads to frames for the same scope. -/
theorem ancestor? (tracks : F.Tracks r r' gaps) (n : Nat) :
    Option.Rel F.Shares (h.ancestor? r n) (h'.ancestor? r' (gaps.out n)) := by
  induction tracks generalizing n with
  | globals found =>
    rw [Gaps.out_nil]
    cases n with
    | zero => exact .some ⟨none, found⟩
    | succ n =>
      obtain ⟨bindings, there, there'⟩ := framed.shared found
      unfold Heap.ancestor?
      rw [there, there']
      exact .none
  | @inner r r' around around' gaps found _ ih =>
    cases n with
    | zero =>
      rw [Gaps.out_head]
      exact .some ⟨_, found⟩
    | succ n =>
      obtain ⟨bindings, there, there'⟩ := framed.shared found
      rw [Gaps.out_behind]
      unfold Heap.ancestor?
      rw [there, there']
      exact ih n
  | further found _ ih =>
    have there' := framed.further found
    rw [Gaps.out_further, Heap.ancestor?.eq_def h' _ (_ + 1)]
    dsimp only
    rw [there']
    exact ih n

theorem binding? (shares : F.Shares r r') (name : String) : h'.binding? r' name = h.binding? r name := by
  obtain ⟨around?, found⟩ := shares
  obtain ⟨bindings, there, there'⟩ := framed.shared found
  rw [Heap.binding?, Heap.binding?, there, there']
  rfl

/-- What is bound so far out is bound in the other heap, across further frames. -/
theorem outward (tracks : F.Tracks r r' gaps) (n : Nat) (name : String) :
    (h'.ancestor? r' (gaps.out n)).bind (h'.binding? · name) = (h.ancestor? r n).bind (h.binding? · name) :=
  bind_eq_of_rel (framed.ancestor? tracks n) fun _ _ shares => framed.binding? shares name

theorem target? (tracks : F.Tracks r r' gaps) {use use' : Use} (moved : K.Moved gaps use use') :
    Option.Rel F.Shares (h.target? K.distances r use.id) (h'.target? K.distances' r' use'.id) := by
  unfold Heap.target?
  rw [moved.distance]
  cases K.distances.get? use.id with
  | none => exact .some ⟨none, framed.globals⟩
  | some distance => exact framed.ancestor? tracks distance

theorem lookup? (tracks : F.Tracks r r' gaps) {use use' : Use} (moved : K.Moved gaps use use') :
    h'.lookup? K.distances' r' use'.id use'.name = h.lookup? K.distances r use.id use.name := by
  rw [moved.1.1]
  exact bind_eq_of_rel (framed.target? tracks moved) fun _ _ shares => framed.binding? shares use.name

/-- Both heaps are the same to look at. -/
theorem resembles : h.Resembles h' where
  closures r := map_eq_of_rel (framed.closures r) fun _ _ same => same.name
  classesSize := framed.classesSize
  names r := map_eq_of_rel (framed.classes r) fun _ _ made => made.name
  superclasses r := bind_eq_of_rel (framed.classes r) fun _ _ made => made.superclass?
  instances := framed.instances
  arrays := framed.arrays

theorem method? (r : Ref .classObject) (name : String) :
    Option.Rel (Closure.Framed K F [false]) (h.method? r name) (h'.method? r name) := by
  rw [Heap.method?, Heap.method?, framed.resembles.lineage]
  exact rel_findSome (fun r => rel_bind (framed.classes r) fun _ _ made => made.methods name) _

/-! ### What is changed -/

/-- A variable is bound in two frames for the same scope. -/
theorem bind (shares : F.Shares r r') (name : String) (value : Value) :
    (h.bind r name value).Framed K F (h'.bind r' name value) := by
  obtain ⟨_, found⟩ := shares
  have size := framed.framesSize
  refine { framed with
    framesSize := by simpa [Heap.bind] using size
    shared := fun {t t' other?} there => ?_
    further := fun {t' around} there => ?_ }
  · obtain ⟨bindings, was, was'⟩ := framed.shared there
    rw [Heap.frame?_bind, Heap.frame?_bind, was, was']
    by_cases here : t' = r'
    · subst here
      obtain ⟨rfl, rfl⟩ := Role.shared.inj (Option.some.inj (there.symm.trans found))
      exact ⟨bindings.put name value, if_pos rfl, if_pos rfl⟩
    · have apart : t ≠ r := fun same => here (framed.once found (same ▸ there))
      exact ⟨bindings, if_neg apart, if_neg here⟩
  · have other : t' ≠ r' := by
      rintro rfl
      cases there.symm.trans found
    rw [Heap.frame?_bind, if_neg other]
    exact framed.further there

theorem bindParams (shares : F.Shares r r') (params : List String) (arguments : List Value) :
    (bindParams r params arguments h).Framed K F (Lox.bindParams r' params arguments h') := by
  unfold Lox.bindParams
  induction params.zip arguments generalizing h h' with
  | nil => exact framed
  | cons pair rest ih => exact ih (framed.bind shares pair.1 pair.2)

/-- A frame that is made in both heaps, within frames for the same scope. -/
theorem addFrame (parent parent' : Ref .frame) :
    (h'.addFrame parent').1 = ⟨F.length⟩ ∧
    (h.addFrame parent).2.Framed K (F ++ [.shared (h.addFrame parent).1 (some (parent, parent'))])
      (h'.addFrame parent').2 := by
  have made' : (h'.addFrame parent').1 = ⟨F.length⟩ := congrArg Ref.mk framed.framesSize
  have more : F <+: F ++ [.shared (h.addFrame parent).1 (some (parent, parent'))] := List.prefix_append _ _
  have fresh {t' : Ref .frame} {around?}
      (there : F.role? t' = some (.shared (h.addFrame parent).1 around?)) : False := by
    obtain ⟨bindings, was, -⟩ := framed.shared there
    simp [Heap.frame?, Heap.addFrame] at was
  have apart {t' : Ref .frame} (old : ¬ t'.index = F.length) : t' ≠ (h'.addFrame parent').1 := by
    rw [made']
    exact fun same => old (congrArg Ref.index same)
  refine ⟨made', { framed with
    globals := Framing.role?_mono more framed.globals
    framesSize := by simp [Heap.addFrame, framed.framesSize]
    once := fun {r r' t' around? other?} there other => ?_
    shared := fun {r r' around?} there => ?_
    further := fun {r' around} there => ?_
    closures := fun t => rel_imp (framed.closures t) fun _ _ same => same.mono more
    classes := fun t => rel_imp (framed.classes t) fun _ _ same => same.mono more }⟩
  · rw [Framing.role?_append] at there other
    split at there <;> split at other
    · next here here' => exact congrArg Ref.mk (here'.trans here.symm)
    · obtain ⟨rfl, -⟩ := Role.shared.inj (Option.some.inj there)
      exact (fresh other).elim
    · obtain ⟨rfl, -⟩ := Role.shared.inj (Option.some.inj other)
      exact (fresh there).elim
    · exact framed.once there other
  · rw [Framing.role?_append] at there
    rw [Heap.frame?_addFrame, Heap.frame?_addFrame]
    split at there
    · next new =>
      obtain ⟨rfl, rfl⟩ := Role.shared.inj (Option.some.inj there)
      have here : r' = (h'.addFrame parent').1 := made'.symm ▸ congrArg Ref.mk new
      exact ⟨[], if_pos rfl, if_pos here⟩
    · next old =>
      obtain ⟨bindings, was, was'⟩ := framed.shared there
      have other : r ≠ (h.addFrame parent).1 := by
        rintro rfl
        exact fresh there
      exact ⟨bindings, (if_neg other).trans was, (if_neg (apart old)).trans was'⟩
  · rw [Framing.role?_append] at there
    split at there
    · cases there
    · next old =>
      rw [Heap.frame?_addFrame, if_neg (apart old)]
      exact framed.further there

/-- A frame that is made in the other heap only. -/
theorem addFurther (parent' : Ref .frame) : (h'.addFrame parent').1 = ⟨F.length⟩ ∧
    h.Framed K (F ++ [.further parent']) (h'.addFrame parent').2 := by
  have made' : (h'.addFrame parent').1 = ⟨F.length⟩ := congrArg Ref.mk framed.framesSize
  have more : F <+: F ++ [.further parent'] := List.prefix_append _ _
  have apart {t' : Ref .frame} (old : ¬ t'.index = F.length) : t' ≠ (h'.addFrame parent').1 := by
    rw [made']
    exact fun same => old (congrArg Ref.index same)
  have shared {r r' : Ref .frame} {around?}
      (there : Framing.role? (F ++ [.further parent']) r' = some (.shared r around?)) :
      F.role? r' = some (.shared r around?) ∧ ¬ r'.index = F.length := by
    rw [Framing.role?_append] at there
    split at there
    · cases there
    · next old => exact ⟨there, old⟩
  refine ⟨made', { framed with
    globals := Framing.role?_mono more framed.globals
    framesSize := by simp [Heap.addFrame, framed.framesSize]
    once := fun there other => framed.once (shared there).1 (shared other).1
    shared := fun {r r' around?} there => ?_
    further := fun {r' around} there => ?_
    closures := fun t => rel_imp (framed.closures t) fun _ _ same => same.mono more
    classes := fun t => rel_imp (framed.classes t) fun _ _ same => same.mono more }⟩
  · obtain ⟨there, old⟩ := shared there
    obtain ⟨bindings, was, was'⟩ := framed.shared there
    refine ⟨bindings, was, ?_⟩
    rw [Heap.frame?_addFrame, if_neg (apart old)]
    exact was'
  · rw [Framing.role?_append] at there
    rw [Heap.frame?_addFrame]
    split at there
    · next new =>
      obtain rfl := Role.further.inj (Option.some.inj there)
      exact if_pos (made'.symm ▸ congrArg Ref.mk new)
    · next old => exact (if_neg (apart old)).trans (framed.further there)

theorem addClosure {c c' : Closure} (same : c.Framed K F [] c') :
    (h'.addClosure c').1 = (h.addClosure c).1 ∧ (h.addClosure c).2.Framed K F (h'.addClosure c').2 := by
  have made : (h'.addClosure c').1 = (h.addClosure c).1 := congrArg Ref.mk framed.closuresSize
  refine ⟨made, { framed with closuresSize := ?_, closures := fun t => ?_ }⟩
  · simp [Heap.addClosure, framed.closuresSize]
  · rw [Heap.closure?_addClosure, Heap.closure?_addClosure, made]
    split
    · exact .some same
    · exact framed.closures t

theorem addClass {made made' : ClassObject} (same : made.Framed K F made') :
    (h'.addClass made').1 = (h.addClass made).1 ∧ (h.addClass made).2.Framed K F (h'.addClass made').2 := by
  have ref : (h'.addClass made').1 = (h.addClass made).1 := congrArg Ref.mk framed.classesSize
  refine ⟨ref, { framed with classesSize := ?_, classes := fun t => ?_ }⟩
  · simp [Heap.addClass, framed.classesSize]
  · rw [Heap.classObject?_addClass, Heap.classObject?_addClass, ref]
    split
    · exact .some same
    · exact framed.classes t

theorem addInstance (r : Ref .classObject) :
    (h'.addInstance r).1 = (h.addInstance r).1 ∧ (h.addInstance r).2.Framed K F (h'.addInstance r).2 := by
  unfold Heap.addInstance
  rw [framed.instances]
  exact ⟨rfl, { framed with instances := rfl }⟩

theorem addArray (elements : Array Value) :
    (h'.addArray elements).1 = (h.addArray elements).1 ∧
    (h.addArray elements).2.Framed K F (h'.addArray elements).2 := by
  unfold Heap.addArray
  rw [framed.arrays]
  exact ⟨rfl, { framed with arrays := rfl }⟩

theorem setField (r : Ref .instance) (name : String) (value : Value) :
    (h.setField r name value).Framed K F (h'.setField r name value) := by
  unfold Heap.setField
  rw [framed.instances]
  exact { framed with instances := rfl }

theorem setElement (r : Ref .array) (index : Nat) (value : Value) :
    (h.setElement r index value).Framed K F (h'.setElement r index value) := by
  unfold Heap.setElement
  rw [framed.arrays]
  exact { framed with arrays := rfl }

theorem pushElement (r : Ref .array) (value : Value) :
    (h.pushElement r value).Framed K F (h'.pushElement r value) := by
  unfold Heap.pushElement
  rw [framed.arrays]
  exact { framed with arrays := rfl }

end Heap.Framed

/-! ### Heaps as they are -/

/-- Each frame of a layout stands for itself. -/
def Framing.ofLayout (L : Layout) : Framing :=
  L.mapIdx fun i slot => .shared ⟨i⟩ (slot.parent?.map fun around => (around, around))

theorem Framing.role?_ofLayout (L : Layout) (r : Ref .frame) : (ofLayout L).role? r =
    (L.slot? r).map fun slot => .shared r (slot.parent?.map fun around => (around, around)) :=
  List.getElem?_mapIdx

theorem Framing.Tracks.ofLayout {L : Layout} {marks : Marks} (tracks : L.Tracks r marks) :
    ∃ gaps : Gaps, true ∉ gaps ∧ (ofLayout L).Tracks r r gaps := by
  induction tracks with
  | globals found => exact ⟨[], by simp, .globals (by rw [role?_ofLayout, found]; rfl)⟩
  | inner found _ ih =>
    obtain ⟨gaps, flat, outside⟩ := ih
    exact ⟨false :: gaps, by simpa using flat, .inner (by rw [role?_ofLayout, found]; rfl) outside⟩

/-- The ids of the references in a function have been handed out. -/
def Closure.Below (nextId : Nat) (c : Closure) : Prop :=
  ∃ chain, KnownAll (· < nextId) (c.decl.sites chain)

section Self

variable {L : Layout} {ρ : Renaming} {d distances : Distances} {nextId : Nat}

theorem Closure.Alike.framed {marks : Marks} {c c' : Closure} (alike : c.Alike ρ d L marks c')
    (flat : true ∉ between) (below : c.Below nextId) :
    c.Framed ⟨distances, distances, nextId, nextId⟩ (.ofLayout L) between c := by
  obtain ⟨around, tracks, -⟩ := alike.decl
  obtain ⟨gaps, outside, tracks⟩ := Framing.Tracks.ofLayout tracks
  obtain ⟨chain, known⟩ := below
  refine ⟨⟨gaps, tracks, Gaps.headD_of_not_mem outside, c.decl.deepens_self ?_ ?_ known⟩, rfl⟩
  · exact fun gaps flat use less => Bearings.moved_self flat less
  · simp [flat, outside]

/-- A heap is framed by itself, if the references of all its functions have been handed out. -/
theorem Heap.Alike.framed (alike : h.Alike ρ d L h)
    (closures : ∀ r c, h.closure? r = some c → c.Below nextId)
    (methods : ∀ r made name c, h.classObject? r = some made → made.methods.get? name = some c → c.Below nextId) :
    h.Framed ⟨distances, distances, nextId, nextId⟩ (.ofLayout L) h := by
  have shared {r r' : Ref .frame} {around?} (there : (Framing.ofLayout L).role? r' = some (.shared r around?)) :
      r = r' ∧ ∃ slot, L.slot? r' = some slot ∧ around? = slot.parent?.map fun around => (around, around) := by
    rw [Framing.role?_ofLayout] at there
    obtain ⟨slot, found, same⟩ := Option.map_eq_some_iff.mp there
    obtain ⟨rfl, rfl⟩ := Role.shared.inj same
    exact ⟨rfl, slot, found, rfl⟩
  refine ⟨?_, ?_, ?_, ?_, ?_, rfl, fun r => ?_, rfl, fun r => ?_, rfl, rfl⟩
  · rw [Framing.role?_ofLayout, alike.globals]
    rfl
  · rw [Framing.ofLayout, List.length_mapIdx, alike.framesSize.1]
  · intro r r' t' around? other? there other
    exact (shared other).1.symm.trans (shared there).1
  · intro r r' around? there
    obtain ⟨rfl, slot, found, rfl⟩ := shared there
    obtain ⟨⟨parent?, bindings⟩, was, same, -⟩ := alike.frames r slot found
    obtain rfl : parent? = slot.parent? := same
    refine ⟨bindings, ?_, ?_⟩ <;> (rw [was]; cases slot.parent? <;> rfl)
  · intro r' around there
    rw [Framing.role?_ofLayout] at there
    obtain ⟨slot, -, same⟩ := Option.map_eq_some_iff.mp there
    cases same
  · exact rel_self (alike.closures r) fun c _ found same => same.framed (by simp) (closures r c found)
  · refine rel_self (alike.classes r) fun made _ found same => ⟨rfl, rfl, fun name => ?_⟩
    exact rel_self (same.methods name) fun c _ has method => method.framed (by simp) (methods r made name c found has)

end Self

end Heaps

end Lox
