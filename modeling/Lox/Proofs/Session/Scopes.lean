import Lox.Proofs.Session.Points

/-!
Names mean what they say. Wherever a session comes by a node that refers to a variable, `this` or `super`
and that has a distance, the frame so far out is an instance of the innermost scope around the node in
which the name is declared in front of it, and binds the name. Only global names can be undefined.
-/

namespace Lox

open Run Session

/-! ### Nodes that refer to something -/

/-- What a node refers to, and the frame in which it does. The superclass of a class is read as a variable. -/
def Task.reference? : Task → Option (Ref .frame × Reference)
  | .expr frame (.var use) => some (frame, ⟨use.id, use.name, false⟩)
  | .expr frame (.assign target _) => some (frame, ⟨target.id, target.name, true⟩)
  | .expr frame (.thisRef id _) => some (frame, ⟨id, thisName, false⟩)
  | .expr frame (.superRef id _ _) => some (frame, ⟨id, superName, false⟩)
  | .stmt frame (.classDecl _ (some use) _ _) => some (frame, ⟨use.id, use.name, false⟩)
  | _ => none

/-- A run ends because a variable is undefined. -/
def Undefined {α : Type} (r : EStateM.Result Stop Machine α) : Prop :=
  ∃ line name m, r = .error (.fault ⟨line, .undefinedVariable name⟩) m

/-- A node itself, and not a part of it, finds a variable undefined. An assignment does so behind its value. -/
def Point.RaisesUndefined (distances : Distances) (p : Point) : Prop :=
  match p.task with
  | .expr frame (.assign target value) => ∃ n v m, (evaluator distances n).expr frame value p.machine = .ok v m ∧
    Undefined (assignVariable distances frame target v m)
  | .expr frame e => ∃ n, Undefined ((evaluator distances n).expr frame e p.machine)
  | .stmt frame (.classDecl _ superclass? _ line) =>
    Undefined (readSuperclass distances frame line superclass? p.machine)
  | _ => False

/-- So many frames out there is an instance of the innermost scope around a reference that has its name
declared in front of it, and that frame binds the name. -/
structure Site.BoundAt (visited : Point → Prop) (h : Heap) (frame : Ref .frame) (d : Nat) (place : Place)
    (target : Ref .frame) (site : Site) : Prop where
  found : site.chain[d]? = some place
  declared : site.reference.name ∈ place.names
  innermost : ∀ i < d, ∀ inner, site.chain[i]? = some inner → site.reference.name ∉ inner.names
  reached : h.ancestor? frame d = some target
  made : InstanceOf visited place.scope target
  bound : (h.binding? target site.reference.name).isSome

/-! ### What is bound is found -/

variable {distances : Distances} {frame : Ref .frame} {m m' : Machine} {d id : Nat} {name : String}

theorem readVariable_found (use : Use) {target : Ref .frame} {value : Value}
    (distance : distances.get? use.id = some d) (reached : m.heap.ancestor? frame d = some target)
    (bound : m.heap.binding? target use.name = some value) : readVariable distances frame use m = .ok value m := by
  have lookup : m.heap.lookup? distances frame use.id use.name = some value := by
    rw [Heap.lookup?, Heap.target?, distance]
    simp [reached, bound]
  rw [readVariable, read_bind, lookup]
  rfl

theorem readVariable_bound (use : Use) {target : Ref .frame} (distance : distances.get? use.id = some d)
    (reached : m.heap.ancestor? frame d = some target) (bound : (m.heap.binding? target use.name).isSome) :
    ∃ value, readVariable distances frame use m = .ok value m := by
  obtain ⟨value, found⟩ := Option.isSome_iff_exists.mp bound
  exact ⟨value, readVariable_found use distance reached found⟩

theorem assignVariable_found {use : Use} {value : Value} {target : Ref .frame}
    (distance : distances.get? use.id = some d) (reached : m.heap.ancestor? frame d = some target)
    (bound : (m.heap.binding? target use.name).isSome) :
    assignVariable distances frame use value m = .ok value { m with heap := m.heap.bind target use.name value } := by
  have found : (m.heap.target? distances frame use.id).filter (fun r => (m.heap.binding? r use.name).isSome) =
      some target := by
    rw [Heap.target?, distance]
    simp [reached, bound]
  rw [assignVariable, read_bind, found]
  rfl

theorem assignVariable_bound {use : Use} {value : Value} {target : Ref .frame}
    (distance : distances.get? use.id = some d) (reached : m.heap.ancestor? frame d = some target)
    (bound : (m.heap.binding? target use.name).isSome) :
    ∃ m', assignVariable distances frame use value m = .ok value m' :=
  ⟨_, assignVariable_found distance reached bound⟩

theorem not_undefined_of_ok {α : Type} {r : EStateM.Result Stop Machine α} {a : α} (done : r = .ok a m) :
    ¬ Undefined r := by
  rintro ⟨line, name, m', failed⟩
  rw [done] at failed
  cases failed

/-- Where the frames that it needs bind what they should, `super` is the search of a method. -/
theorem readSuper_eq {name : String} {line : Nat} {outer inner : Ref .frame} {superclass : Ref .classObject}
    {receiver : Ref .instance} (distance : distances.get? id = some (d + 1))
    (outside : m.heap.ancestor? frame (d + 1) = some outer)
    (super : m.heap.binding? outer superName = some (.classObject superclass))
    (inside : m.heap.ancestor? frame d = some inner)
    (this : m.heap.binding? inner thisName = some (.instance receiver)) :
    readSuper distances frame id name line m =
      (ofOption line (.undefinedProperty name) (m.heap.method? superclass name) >>= fun method =>
        methodValue method receiver) m := by
  have superFound : (m.heap.ancestor? frame (d + 1)).bind (m.heap.binding? · superName) =
      some (.classObject superclass) := by rw [outside, Option.bind_some, super]
  have thisFound : (m.heap.ancestor? frame d).bind (m.heap.binding? · thisName) =
      some (.instance receiver) := by rw [inside, Option.bind_some, this]
  unfold readSuper
  simp only [distance, read_bind, superFound, thisFound]

theorem readSuper_bound {method : String} {line : Nat} {outer inner : Ref .frame} {superclass : Ref .classObject}
    {receiver : Ref .instance} (distance : distances.get? id = some (d + 1))
    (outside : m.heap.ancestor? frame (d + 1) = some outer)
    (super : m.heap.binding? outer superName = some (.classObject superclass))
    (inside : m.heap.ancestor? frame d = some inner)
    (this : m.heap.binding? inner thisName = some (.instance receiver)) :
    ¬ Undefined (readSuper distances frame id method line m) := by
  rw [readSuper_eq distance outside super inside this]
  cases m.heap.method? superclass method with
  | none =>
    rintro ⟨line', name, m', failed⟩
    cases failed
  | some found => exact not_undefined_of_ok rfl

/-! ### References at a point -/

variable {visited : Point → Prop} {accepted : List Stmt → Prop} {p : Point} {ref : Reference}

/-- What a node refers to stands within the scopes that its frame tracks. -/
theorem Expected.reference (expected : Expected visited accepted p)
    (known : ∀ program, accepted program → Lox.Sound distances program)
    (refers : p.task.reference? = some (frame, ref)) :
    ∃ chain pending?, RefersAt visited accepted p.machine.heap frame chain pending? [ref] := by
  obtain ⟨task, m⟩ := p
  have one {e : Expr} {chain : List Place} {pending? : Option String}
      (refersAt : RefersAt visited accepted m.heap frame chain pending? e.references) (own : ref ∈ e.references) :
      ∃ chain pending?, RefersAt visited accepted m.heap frame chain pending? [ref] :=
    ⟨chain, pending?, refersAt.sub (.refl _) fun _ member => List.mem_singleton.mp member ▸ own⟩
  match task, refers with
  | .expr _ (.var use), rfl =>
    obtain ⟨chain, pending?, refersAt⟩ := expected
    exact one refersAt List.mem_cons_self
  | .expr _ (.assign target value), rfl =>
    obtain ⟨chain, pending?, refersAt⟩ := expected
    exact one refersAt List.mem_cons_self
  | .expr _ (.thisRef id line), rfl =>
    obtain ⟨chain, pending?, refersAt⟩ := expected
    exact one refersAt List.mem_cons_self
  | .expr _ (.superRef id method line), rfl =>
    obtain ⟨chain, pending?, refersAt⟩ := expected
    exact one refersAt List.mem_cons_self
  | .stmt _ (.classDecl name (some use) methods line), rfl =>
    obtain ⟨chain, inLoop, inFunction, program, inside, stands, tracks⟩ := expected
    have fits := accepted_fits known inside stands
    refine ⟨chain, none, program, inside,
      ⟨fun other member => ?_, fun other member assigned => ?_, fits.paired⟩, tracks⟩
    · refine fits.sites _ (List.mem_append_left _ ?_)
      rw [List.mem_singleton.mp member]
      exact List.mem_cons_self
    · rw [List.mem_singleton.mp member] at assigned
      cases assigned

theorem Tracks.boundAt {h : Heap} (site : Site) (tracks : Tracks visited accepted h frame site.chain)
    (distance : site.distance? = some d) : ∃ place target, site.BoundAt visited h frame d place target := by
  obtain ⟨inside, declared, before⟩ := List.findIdx?_eq_some_iff_getElem.mp distance
  have declared : site.reference.name ∈ site.chain[d].names := by simpa [Place.has] using declared
  have found : site.chain[d]? = some site.chain[d] := List.getElem?_eq_getElem inside
  obtain ⟨target, reached, made, -, bound⟩ := tracks.ancestor found
  refine ⟨site.chain[d], target, found, declared, fun i less inner is => ?_, reached, made, bound _ declared⟩
  have past := before i less
  obtain ⟨_, same⟩ := List.getElem?_eq_some_iff.mp is
  rw [same] at past
  simpa [Place.has] using past

/-- A node whose name has a distance finds it. -/
theorem not_undefined (sound : WellScoped visited accepted p.machine.heap) {chain : List Place}
    (paired : Paired chain) (tracks : Tracks visited accepted p.machine.heap frame chain)
    (refers : p.task.reference? = some (frame, ref)) (distance : distances.get? ref.id = some d)
    (innermost : chain.findIdx? (·.has ref.name) = some d) : ¬ p.RaisesUndefined distances := by
  obtain ⟨task, m⟩ := p
  obtain ⟨target, reached, bound⟩ :
      ∃ target, m.heap.ancestor? frame d = some target ∧ (m.heap.binding? target ref.name).isSome := by
    obtain ⟨place, target, at_⟩ := tracks.boundAt ⟨chain, none, ref⟩ innermost
    exact ⟨target, at_.reached, at_.bound⟩
  -- Without depth a node comes to nothing; else it is looked at.
  have deep {e : Expr} (raises : ∃ n, Undefined ((evaluator distances n).expr frame e m)) :
      ∃ n, Undefined ((evaluator distances n).evalExpr distances frame e m) := by
    obtain ⟨n, raises⟩ := raises
    cases n with
    | zero =>
      obtain ⟨line, name, m', starved⟩ := raises
      cases starved
    | succ n => exact ⟨n, raises⟩
  match task, refers with
  | .expr _ (.var use), rfl =>
    intro raises
    obtain ⟨value, done⟩ := readVariable_bound use distance reached bound
    obtain ⟨n, raises⟩ := deep raises
    exact not_undefined_of_ok done raises
  | .expr _ (.thisRef id line), rfl =>
    intro raises
    obtain ⟨value, done⟩ := readVariable_bound ⟨id, thisName, line⟩ distance reached bound
    obtain ⟨n, raises⟩ := deep raises
    exact not_undefined_of_ok done raises
  | .expr _ (.assign use value), rfl =>
    rintro ⟨n, v, m', valued, raises⟩
    have part := (evaluator_within allows_partOf distances n).expr frame value m
    rw [valued] at part
    have assigns : ∃ m'', assignVariable distances frame use v m' = .ok v m'' :=
      assignVariable_bound distance (part.ancestor reached) (part.binding bound)
    obtain ⟨m'', done⟩ := assigns
    exact not_undefined_of_ok done raises
  | .expr _ (.superRef id method line), rfl =>
    intro raises
    obtain ⟨n, raises⟩ := deep raises
    obtain ⟨place, outer, outside⟩ := tracks.boundAt ⟨chain, none, ⟨id, superName, false⟩⟩ innermost
    obtain ⟨below, around, rfl, inner, named⟩ := paired d place outside.found outside.declared
    obtain ⟨receiver, inside, -, -, names⟩ := tracks.ancestor inner
    obtain ⟨super, superBound⟩ := Option.isSome_iff_exists.mp outside.bound
    obtain ⟨this, thisBound⟩ := Option.isSome_iff_exists.mp (names _ named)
    obtain ⟨superclass, rfl⟩ := (sound.special _ _ _ superBound).2 rfl
    obtain ⟨instance_, rfl, -⟩ := (sound.special _ _ _ thisBound).1 rfl
    exact readSuper_bound distance outside.reached superBound inside thisBound raises
  | .stmt _ (.classDecl name (some use) methods line), rfl =>
    intro raises
    obtain ⟨value, done⟩ := readVariable_bound use distance reached bound
    change Undefined ((readVariable distances frame use >>= _) m) at raises
    rw [bind_of_ok done] at raises
    obtain ⟨line', name', m', failed⟩ := raises
    cases value <;> cases failed

/-- Wherever a session comes by a node that refers to a name, the node has the distance of the innermost
scope around it in which the name is declared in front of it, the frame so far out was made for that scope
and binds the name, and only a name without a distance is found undefined. All of this is left open of an
assignment to a local variable inside its own initializer. -/
theorem scopes_agree {limit? : Option Nat} {before : List Step} {depth : Nat} {source : String}
    (visits : (after limit? before).Visits depth source p) (refers : p.task.reference? = some (frame, ref)) :
    let steps := before ++ [.eval depth source]
    let distances := (after limit? before).known source
    ∃ program site, AcceptedIn limit? steps program ∧ site ∈ Stmt.sitesAll program [] ∧ site.reference = ref ∧
      (site.pending? = some ref.name → ref.assigned = true) ∧
      (site.pending? ≠ some ref.name →
        distances.get? ref.id = site.distance? ∧
        (∀ d, distances.get? ref.id = some d → ∃ place target,
          site.BoundAt (Visited limit? steps) p.machine.heap frame d place target) ∧
        (p.RaisesUndefined distances → distances.get? ref.id = none)) := by
  intro steps distances
  obtain ⟨sound, expected⟩ := visits_expected visits
  have known := visits_known visits
  obtain ⟨chain, pending?, program, inside, sited, tracks⟩ := expected.reference known refers
  have member := sited.sited ref List.mem_cons_self
  have agrees := (known program inside).agrees _ member
  refine ⟨program, ⟨chain, pending?, ref⟩, inside, member, rfl, agrees.1, fun apart => ?_⟩
  have same := agrees.2 apart
  refine ⟨same, fun d distance => ?_, fun raises => ?_⟩
  · exact tracks.boundAt ⟨chain, pending?, ref⟩ (same.symm.trans distance)
  · cases distance : distances.get? ref.id with
    | none => rfl
    | some d =>
      exact absurd raises (not_undefined sound sited.paired tracks refers distance (same.symm.trans distance))

theorem scopes_agree_block :
    let heap : Heap := ⟨#[⟨none, [("len", .native .len), ("push", .native .push)]⟩, ⟨some ⟨0⟩, [("a", .nil)]⟩],
      #[], #[], #[], #[]⟩
    let p : Point := ⟨.expr ⟨1⟩ (.var ⟨0, "a", 1⟩), ⟨heap, .empty none⟩⟩
    (after none []).Visits 9 "{ var a; a; }" p ∧ p.task.reference? = some (⟨1⟩, ⟨0, "a", false⟩) ∧
    ∃ (site : Site) (place : Place) (target : Ref .frame), site.reference = ⟨0, "a", false⟩ ∧
      site.BoundAt (Visited none [.eval 9 "{ var a; a; }"]) heap ⟨1⟩ 0 place target := by
  intro heap p
  have visits : (after none []).Visits 9 "{ var a; a; }" p := by
    refine ⟨by decide +kernel, fun stop => ?_⟩
    have program : (after none []).program "{ var a; a; }" =
        [.block [.varDecl "a" none 1, .expr (.var ⟨0, "a", 1⟩)]] := rfl
    rw [program]
    let self := breakpoint ((after none []).known "{ var a; a; }") p stop 8
    let inside : Machine := ⟨(Heap.start.addFrame Heap.globals).2, .empty none⟩
    have opened : make (·.addFrame Heap.globals) (after none []).machine = .ok ⟨1⟩ inside := rfl
    have declared : self.stmt ⟨1⟩ (.varDecl "a" none 1) inside = .ok .normal p.machine :=
      (Point.guard_other (by simp [p]) stop _ inside).trans rfl
    have used : self.stmt ⟨1⟩ (.expr (.var ⟨0, "a", 1⟩)) p.machine = .error stop p.machine :=
      (Point.guard_other (by simp [p]) stop _ _).trans (bind_of_error (Point.guard_here _ _ stop _) _)
    have both : inOrder (self.stmt ⟨1⟩) [.varDecl "a" none 1, .expr (.var ⟨0, "a", 1⟩)] inside =
        .error stop p.machine := (bind_of_ok declared _).trans (bind_of_error used _)
    exact bind_of_error ((Point.guard_other (by simp [p]) stop _ _).trans ((bind_of_ok opened _).trans both)) _
  refine ⟨visits, rfl, ?_⟩
  obtain ⟨program, site, -, -, same, read, agrees⟩ := scopes_agree visits rfl
  obtain ⟨-, bound, -⟩ := agrees fun own => nomatch read own
  obtain ⟨place, target, at_⟩ := bound 0 (by decide +kernel)
  exact ⟨site, place, target, same, at_⟩

/-! ### Assignments to local variables -/

/-- Wherever a session comes by an assignment with a distance, the frame so far out binds the variable behind
the value too, and the assignment sets it: no local variable is changed before it exists. Only inside the
initializer of the very variable this is left open. -/
theorem assigned_local_bound {limit? : Option Nat} {before : List Step} {depth : Nat} {source : String}
    {use : Use} {value : Expr} (visits : (after limit? before).Visits depth source p)
    (assigns : p.task = .expr frame (.assign use value)) :
    let steps := before ++ [.eval depth source]
    let distances := (after limit? before).known source
    ∃ program site, AcceptedIn limit? steps program ∧ site ∈ Stmt.sitesAll program [] ∧
      site.reference = ⟨use.id, use.name, true⟩ ∧
      (site.pending? ≠ some use.name → ∀ d, distances.get? use.id = some d →
        ∀ n v m, (evaluator distances n).expr frame value p.machine = .ok v m →
          ∃ target, m.heap.ancestor? frame d = some target ∧
            assignVariable distances frame use v m =
              .ok v { m with heap := m.heap.bind target use.name v } ∧
            (m.heap.bind target use.name v).binding? target use.name = some v) := by
  intro steps distances
  have refers : p.task.reference? = some (frame, ⟨use.id, use.name, true⟩) := by
    rw [assigns]
    rfl
  obtain ⟨-, expected⟩ := visits_expected visits
  have known := visits_known visits
  obtain ⟨chain, pending?, program, inside, sited, tracks⟩ := expected.reference known refers
  have member := sited.sited ⟨use.id, use.name, true⟩ List.mem_cons_self
  refine ⟨program, ⟨chain, pending?, _⟩, inside, member, rfl, fun apart d distance n v m valued => ?_⟩
  have innermost := (((known program inside).agrees _ member).2 apart).symm.trans distance
  obtain ⟨place, target, at_⟩ := tracks.boundAt ⟨chain, pending?, ⟨use.id, use.name, true⟩⟩ innermost
  -- The value is evaluated in between; frames and what they bind stay.
  have part := (evaluator_within allows_partOf distances n).expr frame value p.machine
  rw [valued] at part
  have reached : m.heap.ancestor? frame d = some target := part.ancestor at_.reached
  have bound : (m.heap.binding? target use.name).isSome := part.binding at_.bound
  obtain ⟨old, found⟩ := Option.isSome_iff_exists.mp bound
  exact ⟨target, reached, assignVariable_found distance reached bound,
    m.heap.binding?_bind_self (Heap.binding?_present found) use.name v⟩

theorem assigned_local_bound_nested :
    let source := "{ var a; { var b = a = true; } }"
    let heap : Heap := ⟨#[⟨none, [("len", .native .len), ("push", .native .push)]⟩, ⟨some ⟨0⟩, [("a", .nil)]⟩,
      ⟨some ⟨1⟩, []⟩], #[], #[], #[], #[]⟩
    let p : Point := ⟨.expr ⟨2⟩ (.assign ⟨0, "a", 1⟩ (.literal (.bool true))), ⟨heap, .empty none⟩⟩
    (after none []).Visits 9 source p ∧ p.task = .expr ⟨2⟩ (.assign ⟨0, "a", 1⟩ (.literal (.bool true))) ∧
    ∃ site ∈ Stmt.sitesAll ((after none []).program source) [], site.reference = ⟨0, "a", true⟩ ∧
      site.pending? ≠ some "a" ∧
      assignVariable ((after none []).known source) ⟨2⟩ ⟨0, "a", 1⟩ (.bool true) p.machine =
        .ok (.bool true) ⟨heap.bind ⟨1⟩ "a" (.bool true), .empty none⟩ := by
  intro source heap p
  have visits : (after none []).Visits 9 source p := by
    refine ⟨by decide +kernel, fun stop => ?_⟩
    have program : (after none []).program "{ var a; { var b = a = true; } }" =
        [.block [.varDecl "a" none 1,
          .block [.varDecl "b" (some (.assign ⟨0, "a", 1⟩ (.literal (.bool true)))) 1]]] := rfl
    rw [program]
    let self := breakpoint ((after none []).known source) p stop
    let outer : Machine := ⟨(Heap.start.addFrame Heap.globals).2, .empty none⟩
    let bound : Machine := ⟨outer.heap.bind ⟨1⟩ "a" .nil, .empty none⟩
    have opened : make (·.addFrame Heap.globals) (after none []).machine = .ok ⟨1⟩ outer := rfl
    have declared : (self 8).stmt ⟨1⟩ (.varDecl "a" none 1) outer = .ok .normal bound :=
      (Point.guard_other (by simp [p]) stop _ outer).trans rfl
    have further : make (·.addFrame ⟨1⟩) bound = .ok ⟨2⟩ p.machine := rfl
    have used : (self 7).stmt ⟨2⟩ (.varDecl "b" (some (.assign ⟨0, "a", 1⟩ (.literal (.bool true)))) 1) p.machine =
        .error stop p.machine :=
      (Point.guard_other (by simp [p]) stop _ _).trans (bind_of_error (Point.guard_here _ _ stop _) _)
    have inner : (self 8).stmt ⟨1⟩
        (.block [.varDecl "b" (some (.assign ⟨0, "a", 1⟩ (.literal (.bool true)))) 1]) bound = .error stop p.machine :=
      (Point.guard_other (by simp [p]) stop _ _).trans ((bind_of_ok further _).trans (bind_of_error used _))
    have both : inOrder ((self 8).stmt ⟨1⟩) [.varDecl "a" none 1,
        .block [.varDecl "b" (some (.assign ⟨0, "a", 1⟩ (.literal (.bool true)))) 1]] outer = .error stop p.machine :=
      (bind_of_ok declared _).trans (bind_of_error inner _)
    exact bind_of_error ((Point.guard_other (by simp [p]) stop _ _).trans ((bind_of_ok opened _).trans both)) _
  refine ⟨visits, rfl, ?_⟩
  obtain ⟨program, site, ⟨before, depth, text, ⟨rest, whole⟩, -, rfl⟩, member, same, found⟩ :=
    assigned_local_bound visits rfl
  obtain ⟨rfl, rfl⟩ : before = [] ∧ text = source := by
    cases before with
    | nil => simp_all
    | cons _ _ => simp at whole
  have apart : ∀ site ∈ Stmt.sitesAll ((after none []).program source) [], site.pending? ≠ some "a" := by
    decide +kernel
  refine ⟨site, member, same, apart site member, ?_⟩
  obtain ⟨target, reached, assigned, -⟩ :=
    found (apart site member) 1 (by decide +kernel) 1 (.bool true) p.machine rfl
  obtain rfl : Ref.mk 1 = target := Option.some.inj reached
  exact assigned

/-- In its own initializer a local variable is assigned to before it exists, which is a fault though nothing
is reported of it: the walk over scopes refuses to read the variable there, but not to assign to it. -/
theorem own_initializer_undefined :
    let source := "{ var a = a = 1; }"
    let s := after none []
    Accepted s.nextId source ∧ (s.known source).get? 0 = some 0 ∧
    (s.eval 9 source).1 = .faulted ⟨1, .undefinedVariable "a"⟩ := by
  decide +kernel

end Lox
