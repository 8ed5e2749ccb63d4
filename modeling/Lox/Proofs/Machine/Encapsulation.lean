import Lox.Proofs.Machine.Ownership

/-!
Encapsulation. What is evaluated in a frame changes only what it can reach from that frame or from the global
one, and what it makes; and it gets hold of nothing else. A call has its callee and its arguments in place of a
frame. So a variable that only a closure can reach changes only when that closure is called.
-/

namespace Lox

open Contract Run

namespace Heap

variable {h h₁ h' : Heap} {roots roots₁ more : Object → Prop} {target o o' : Object}

/-- Links lead to an object from the given ones or from the global frame. -/
def Reachable (h : Heap) (roots : Object → Prop) (o : Object) : Prop :=
  ∃ root, (roots root ∨ root = .frame globals) ∧ h.Leads root o

/-- An object could be reached before, on a heap, or has been made since. -/
def Accessible (h : Heap) (roots : Object → Prop) (h' : Heap) (o : Object) : Prop :=
  h.Reachable roots o ∨ (¬ h.Has o ∧ h'.Has o)

/-- What was done to a heap stayed within what could be reached and what was made. -/
structure Confined (roots : Object → Prop) (h h' : Heap) : Prop where
  covers : ∀ o, h.Has o → h'.Has o
  untouched : ∀ o, h.Has o → ¬ h.Reachable roots o → o.Unchanged h h'
  enclosed : ∀ o o', h.Accessible roots h' o → h'.Leads o o' → h.Accessible roots h' o'

theorem Reachable.link (reachable : h.Reachable roots o) (link : h.Links o o') : h.Reachable roots o' := by
  obtain ⟨root, start, leads⟩ := reachable
  exact ⟨root, start, leads.tail link⟩

theorem Accessible.covers (accessible : h.Accessible roots h₁ o) (covers : ∀ o, h₁.Has o → h'.Has o) :
    h.Accessible roots h' o :=
  accessible.imp_right fun made => ⟨made.1, covers o made.2⟩

/-- It is enough to look at single links. -/
theorem Confined.of_links (covers : ∀ o, h.Has o → h'.Has o)
    (untouched : ∀ o, h.Has o → ¬ h.Reachable roots o → o.Unchanged h h')
    (links : ∀ o o', h.Accessible roots h' o → h'.Links o o' → h.Accessible roots h' o') : Confined roots h h' := by
  refine ⟨covers, untouched, fun o o' accessible leads => ?_⟩
  induction leads with
  | refl => exact accessible
  | tail _ link ih => exact links _ _ ih link

theorem Confined.refl (roots : Object → Prop) (h : Heap) : Confined roots h h := by
  refine .of_links (fun _ there => there) (fun o _ _ => ?_) fun o o' accessible link => ?_
  · cases o <;> rfl
  · rcases accessible with reachable | ⟨absent, there⟩
    · exact Or.inl (reachable.link link)
    · exact absurd there absent

/-- A change to what is accessible, by what is accessible. -/
theorem Confined.step (confined : Confined roots h h₁) (extended : h₁.Extended h' target more)
    (own : h.Accessible roots h₁ target ∨ ¬ h₁.Has target) (refers : ∀ o, more o → h.Accessible roots h₁ o) :
    Confined roots h h' := by
  have covers (o : Object) (there : h.Has o) : h'.Has o := extended.covers o (confined.covers o there)
  refine .of_links covers (fun o there unreachable => ?_) fun o o' accessible link => ?_
  · have other : o ≠ target := by
      rintro rfl
      rcases own with (reachable | ⟨absent, -⟩) | absent
      · exact unreachable reachable
      · exact absent there
      · exact absent (confined.covers o there)
    exact (confined.untouched o there unreachable).trans (extended.unchanged o other)
  · -- A link of an object that was there is one that the object had, or one of the new ones of the target.
    have before (link : h₁.Links o o') (accessible : h.Accessible roots h₁ o) : h.Accessible roots h₁ o' :=
      confined.enclosed o o' accessible (.single link)
    have had (there : h₁.Has o) : h.Accessible roots h₁ o :=
      accessible.imp_right fun made => ⟨made.1, there⟩
    by_cases same : o = target
    · subst same
      rcases extended.links o' link with old | new
      · exact (before old (had old.has)).covers extended.covers
      · exact (refers o' new).covers extended.covers
    · have old := Links.of_unchanged (extended.unchanged o same) link
      exact (before old (had old.has)).covers extended.covers

/-- What is accessible from accessible objects is accessible. -/
theorem Confined.accessible (first : Confined roots h h₁) (covers : ∀ o, h₁.Has o → h'.Has o)
    (inside : ∀ o, roots₁ o → h.Accessible roots h₁ o) (accessible : h₁.Accessible roots₁ h' o) :
    h.Accessible roots h' o := by
  rcases accessible with ⟨root, start, leads⟩ | ⟨absent, there⟩
  · have from_root : h.Accessible roots h₁ root := by
      rcases start with given | rfl
      · exact inside root given
      · exact Or.inl ⟨_, Or.inr rfl, .refl⟩
    exact (first.enclosed root o from_root leads).covers covers
  · exact Or.inr ⟨fun before => absent (first.covers o before), there⟩

end Heap

open Heap

/-- Runs are confined to what was reachable on a heap. -/
def encapsulation (distances : Distances) (h : Heap) (roots : Object → Prop) : Contract where
  distances
  visited _ := True
  expects p := ∀ o, p.task.Given o → h.Accessible roots p.machine.heap o
  holds m := Confined roots h m.heap
  grows m m' := ∀ o, m.heap.Has o → m'.heap.Has o
  refl _ := fun _ there => there
  trans first second := fun o there => second o (first o there)

theorem encapsulation_owns (distances : Distances) (h : Heap) (roots : Object → Prop) :
    (encapsulation distances h roots).Owns fun m o => h.Accessible roots m.heap o where
  expects given _ := given
  globals _ := Or.inl ⟨_, Or.inr rfl, .refl⟩
  stays grows accessible := accessible.covers grows
  follows confined accessible _ link := confined.enclosed _ _ accessible (.single link)
  method confined accessible found := by
    obtain ⟨owner, reaches, own⟩ := owner_of_method? found
    refine confined.enclosed _ _ accessible (.tail ?_ (.method own))
    exact Relation.ReflTransGen.lift Object.classObject (fun _ _ => Links.superclass) _ _ reaches
  grows extended := extended.covers
  changes confined extended own refers := confined.step extended own refers
  made confined makes := Or.inr ⟨fun before => makes.fresh (confined.covers _ before), makes.there⟩
  written _ confined := ⟨confined, fun _ there => there⟩

section Runs

variable {distances : Distances} {n : Nat} {α : Type} {x : Evaluator → Run α} {m : Machine} {roots : Object → Prop}
  {gives : α → Value → Prop}

/-- An evaluation from some objects keeps what it does, and all values that come up, within what it can reach. -/
structure Encapsulated (distances : Distances) (n : Nat) (x : Evaluator → Run α) (m : Machine)
    (roots : Object → Prop) (gives : α → Value → Prop) : Prop where
  meanwhile : ∀ p : Point, (∀ stop, x (breakpoint distances p stop n) m = .error stop p.machine) →
    Confined roots m.heap p.machine.heap ∧ ∀ o, p.task.Given o → m.heap.Accessible roots p.machine.heap o
  ends : Confined roots m.heap (lastMachine (x (evaluator distances n) m)).heap
  result : ∀ a m', x (evaluator distances n) m = .ok a m' → ∀ v, gives a v →
    ∀ o o', v.object? = some o → m'.heap.Leads o o' → m.heap.Accessible roots m'.heap o'
  /-- The values of the expressions on the way, whatever depth they need. -/
  values : ∀ p : Point, (∀ stop, x (breakpoint distances p stop n) m = .error stop p.machine) →
    ∀ frame e, p.task = .expr frame e → ∀ k v m', (evaluator distances k).expr frame e p.machine = .ok v m' →
      ∀ o o', v.object? = some o → m'.heap.Leads o o' → m.heap.Accessible roots m'.heap o'

/-- A run gives values that are as confined as what it does. -/
theorem enclosed_of_safe (safe : (encapsulation distances m.heap roots).Safe n x m fun a m' =>
      ∀ v, gives a v → v.Owned (m.heap.Accessible roots m'.heap)) {a : α} {m' : Machine}
    (result : x (evaluator distances n) m = .ok a m') :
    Confined roots m.heap m'.heap ∧ ∀ v, gives a v →
      ∀ o o', v.object? = some o → m'.heap.Leads o o' → m.heap.Accessible roots m'.heap o' := by
  have kept := safe (Confined.refl roots m.heap) fun _ _ => trivial
  have ends := kept.ends
  change (encapsulation distances m.heap roots).Ends m _ (x (evaluator distances n) m) at ends
  rw [result] at ends
  obtain ⟨confined, -, valued⟩ := ends
  exact ⟨confined, fun v given o o' is leads => confined.enclosed o o' (valued v given o is) leads⟩

theorem safe_expr (distances : Distances) (n : Nat) (m : Machine) (frame : Ref .frame) (e : Expr) :
    (encapsulation distances m.heap (· = .frame frame)).Safe n (fun self => self.expr frame e) m
      fun a m' => ∀ v, v = a → v.Owned (m.heap.Accessible (· = .frame frame) m'.heap) := by
  have rules := encapsulation_owns distances m.heap (· = .frame frame)
  have own : m.heap.Accessible (· = .frame frame) m.heap (.frame frame) := Or.inl ⟨_, Or.inl rfl, .refl⟩
  refine ((keeps_owned rules n).expr own).imp fun a m' _ _ valued v same => ?_
  rw [same]
  exact valued

theorem encapsulated_of_safe (safe : (encapsulation distances m.heap roots).Safe n x m fun a m' =>
      ∀ v, gives a v → v.Owned (m.heap.Accessible roots m'.heap)) : Encapsulated distances n x m roots gives := by
  have kept := safe (Confined.refl roots m.heap) fun _ _ => trivial
  refine ⟨kept.expects, kept.ends.holds, fun a m' result => (enclosed_of_safe safe result).2, ?_⟩
  intro p passes frame e task k v m' result o o' is leads
  obtain ⟨confined, given⟩ := kept.expects p passes
  have inside (o : Object) (same : o = .frame frame) : m.heap.Accessible roots p.machine.heap o := by
    refine given o ?_
    rw [task]
    exact same
  obtain ⟨inner, accessible⟩ := enclosed_of_safe (safe_expr distances k p.machine frame e) result
  exact confined.accessible inner.covers inside (accessible v rfl o o' is leads)

end Runs

/-- Whatever is evaluated in a frame is encapsulated in what can be reached from it, and so is a call in what can
be reached from its callee and its arguments. -/
theorem evaluation_encapsulated (distances : Distances) (n : Nat) (m : Machine) :
    (∀ frame e, Encapsulated distances n (fun self => self.expr frame e) m (· = .frame frame) fun a v => v = a) ∧
    (∀ frame s, Encapsulated distances n (fun self => self.stmt frame s) m (· = .frame frame)
      fun flow v => flow = .returned v) ∧
    (∀ callee arguments line, Encapsulated distances n (fun self => call self.invoke callee arguments line) m
      (fun o => ∃ v ∈ callee :: arguments, v.object? = some o) fun a v => v = a) := by
  refine ⟨fun frame e => encapsulated_of_safe (safe_expr distances n m frame e),
    fun frame s => encapsulated_of_safe ?_, fun callee arguments line => encapsulated_of_safe ?_⟩
  · have rules := encapsulation_owns distances m.heap (· = .frame frame)
    have own : m.heap.Accessible (· = .frame frame) m.heap (.frame frame) := Or.inl ⟨_, Or.inl rfl, .refl⟩
    exact (keeps_owned rules n).stmt own
  · have rules := encapsulation_owns distances m.heap fun o => ∃ v ∈ callee :: arguments, v.object? = some o
    have given (v : Value) (member : v ∈ callee :: arguments) :
        v.Owned (m.heap.Accessible (fun o => ∃ v ∈ callee :: arguments, v.object? = some o) m.heap) :=
      fun o is => Or.inl ⟨o, Or.inl ⟨v, member, is⟩, .refl⟩
    have called := (keeps_owned rules n).call rules (given callee List.mem_cons_self)
      (fun v member => given v (List.mem_cons_of_mem _ member)) line
    refine called.imp fun a m' _ _ valued v same => ?_
    rw [same]
    exact valued

end Lox
