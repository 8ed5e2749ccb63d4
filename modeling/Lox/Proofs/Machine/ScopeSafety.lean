import Lox.Proofs.Machine.Presence
import Lox.Proofs.Machine.Scoping

/-!
Runs keep frames and scopes in step. At every point of a run the frame in which an expression or a
statement is looked at tracks the scopes around it, and the heap stays well scoped, however the run ends.
-/

namespace Lox

open Contract Run

/-! ### What is expected -/

/-- The references of an expression stand within scopes that a frame tracks. -/
def RefersAt (visited : Point → Prop) (accepted : List Stmt → Prop) (h : Heap) (frame : Ref .frame)
    (chain : List Place) (pending? : Option String) (references : List Reference) : Prop :=
  ∃ program, accepted program ∧ Refers program chain pending? references ∧ Tracks visited accepted h frame chain

/-- A part of a program stands within scopes that a frame tracks. -/
def StandsAt (visited : Point → Prop) (accepted : List Stmt → Prop) (h : Heap) (frame : Ref .frame)
    (chain : List Place) (inLoop inFunction : Bool) (part : Part) : Prop :=
  ∃ program, accepted program ∧ Stands program chain inLoop inFunction part ∧ Tracks visited accepted h frame chain

/-- What is expected at a point: whatever is looked at stands where its frame is. -/
def Expected (visited : Point → Prop) (accepted : List Stmt → Prop) : Point → Prop
  | ⟨.expr frame e, m⟩ => ∃ chain pending?, RefersAt visited accepted m.heap frame chain pending? e.references
  | ⟨.stmt frame s, m⟩ =>
    ∃ chain inLoop inFunction, StandsAt visited accepted m.heap frame chain inLoop inFunction (.stmt s)
  | ⟨.invoke closure arguments, m⟩ => arguments.length = closure.decl.params.length ∧
    ∃ chain, StandsAt visited accepted m.heap closure.scope chain false true (.function closure.decl)

/-- Runs go by what is expected and leave well scoped heaps. -/
def scopeContract (visited : Point → Prop) (accepted : List Stmt → Prop) (distances : Distances) : Contract where
  distances
  visited
  expects := Expected visited accepted
  holds m := WellScoped visited accepted m.heap
  grows m m' := m.Grows m'
  refl := .refl
  trans := .trans

variable {visited : Point → Prop} {accepted : List Stmt → Prop} {distances : Distances} {n : Nat} {m : Machine}
variable {h h' : Heap} {frame : Ref .frame} {chain inner : List Place} {pending? : Option String}
variable {inLoop inFunction : Bool} {α : Type}

/-- Runs that keep the frames in step with the scopes. -/
abbrev ScopeSafe (visited : Point → Prop) (accepted : List Stmt → Prop) (distances : Distances) (n : Nat)
    (x : Evaluator → Run α) (m : Machine) (post : α → Machine → Prop) : Prop :=
  (scopeContract visited accepted distances).Safe n x m post

theorem RefersAt.mono {references : List Reference}
    (refersAt : RefersAt visited accepted h frame chain pending? references) (grows : h.Grows h') :
    RefersAt visited accepted h' frame chain pending? references := by
  obtain ⟨program, inside, refers, tracks⟩ := refersAt
  exact ⟨program, inside, refers, tracks.mono grows⟩

theorem RefersAt.sub {as bs : List Reference} (refersAt : RefersAt visited accepted h frame chain pending? bs)
    (grows : h.Grows h') (inside : ∀ ref ∈ as, ref ∈ bs) :
    RefersAt visited accepted h' frame chain pending? as := by
  obtain ⟨program, known, refers, tracks⟩ := refersAt
  exact ⟨program, known, refers.sub inside, tracks.mono grows⟩

/-! ### Operations -/

section Operations

theorem safe_addFrame (parent : Ref .frame) :
    ScopeSafe visited accepted distances n (fun _ => make (·.addFrame parent)) m fun r m' =>
      r = (m.heap.addFrame parent).1 ∧ m' = { m with heap := (m.heap.addFrame parent).2 } :=
  Safe.make (fun sound => sound.addFrame parent) (.of_heap (.addFrame m.heap parent))

theorem safe_bind (target : Ref .frame) {name : String} (proper : name ≠ thisName ∧ name ≠ superName)
    (value : Value) :
    ScopeSafe visited accepted distances n (fun _ => change (·.bind target name value)) m fun _ m' =>
      m' = { m with heap := m.heap.bind target name value } :=
  Safe.change (fun sound => sound.bind target proper value) (.of_heap (.bind m.heap target proper value))

theorem safe_enclose (parent : Ref .frame) {name : String} {value : Value}
    (special : Special visited accepted (m.heap.enclose parent name value).2 (m.heap.enclose parent name value).1
      name value) :
    ScopeSafe visited accepted distances n (fun _ => make (·.enclose parent name value)) m fun r m' =>
      r = (m.heap.enclose parent name value).1 ∧ m' = { m with heap := (m.heap.enclose parent name value).2 } :=
  Safe.make (fun sound => sound.enclose parent special) (.of_heap (.enclose m.heap parent name value))

/-- A change that concerns no frame, function or class. -/
theorem safe_change {f : Heap → Heap} (grows : m.heap.Grows (f m.heap)) (frames : (f m.heap).frames = m.heap.frames)
    (closures : (f m.heap).closures = m.heap.closures) (classes : (f m.heap).classes = m.heap.classes) :
    ScopeSafe visited accepted distances n (fun _ => change f) m fun _ _ => True :=
  Safe.any (Safe.change (fun sound => sound.of_frames grows frames closures classes) (.of_heap grows))

theorem safe_make {f : Heap → α × Heap} (grows : m.heap.Grows (f m.heap).2)
    (frames : (f m.heap).2.frames = m.heap.frames) (closures : (f m.heap).2.closures = m.heap.closures)
    (classes : (f m.heap).2.classes = m.heap.classes) :
    ScopeSafe visited accepted distances n (fun _ => make f) m fun a m' =>
      a = (f m.heap).1 ∧ m' = { m with heap := (f m.heap).2 } :=
  Safe.make (fun sound => sound.of_frames grows frames closures classes) (.of_heap grows)

theorem safe_done {a : α} : ScopeSafe visited accepted distances n (fun _ => pure a) m fun _ _ => True :=
  Safe.pure fun _ => trivial

theorem safe_ofExcept {line : Nat} (a : Except RuntimeError α) :
    ScopeSafe visited accepted distances n (fun _ => ofExcept line a) m fun _ _ => True :=
  (Safe.ofExcept a).any

theorem safe_read (f : Heap → α) :
    ScopeSafe visited accepted distances n (fun _ => read f) m fun _ _ => True :=
  (Safe.read f).any

theorem safe_readVariable (use : Use) :
    ScopeSafe visited accepted distances n (fun _ => readVariable distances frame use) m fun value m' =>
      m' = m ∧ readVariable distances frame use m = .ok value m := by
  refine (Safe.read _).bind fun value? m₁ _ _ ⟨same, found⟩ => ?_
  rw [same]
  refine (Safe.ofOption value?).imp fun value _ _ _ ⟨same', is⟩ => ⟨same', ?_⟩
  rw [readVariable, read_bind, ← found, is]
  rfl

theorem safe_assignVariable (use : Use) (value : Value)
    (proper : use.name ≠ thisName ∧ use.name ≠ superName) :
    ScopeSafe visited accepted distances n (fun _ => assignVariable distances frame use value) m
      fun _ _ => True := by
  refine (Safe.read _).bind fun target? m₁ _ _ _ => (Safe.ofOption target?).bind fun target m₂ _ _ _ => ?_
  exact (safe_bind target proper value).bind fun _ _ _ _ _ => safe_done

/-- The frame that binds `this` for a method is made in one step. -/
theorem bindMethod_eq (method : Closure) (receiver : Ref .instance) :
    bindMethod method receiver = do
      let frame ← make (·.enclose method.scope thisName (.instance receiver))
      return { method with scope := frame } :=
  rfl

/-- A method bound to an instance of a class that reaches the class of the method may be called. -/
theorem safe_bindMethod {method : Closure} {receiver : Ref .instance} {c : Ref .classObject}
    (bindable : Bindable visited accepted m.heap c method)
    (descends : ∃ i, m.heap.instance? receiver = some i ∧ m.heap.Reaches i.classRef c) :
    ScopeSafe visited accepted distances n (fun _ => bindMethod method receiver) m fun bound m' =>
      bound.decl = method.decl ∧ Callable visited accepted m'.heap bound := by
  have grows := Heap.Grows.enclose m.heap method.scope thisName (.instance receiver)
  have bindable' := bindable.mono grows
  obtain ⟨own, chain, name, superclass?, methods, line, member, declared, tracks⟩ := bindable
  let inner := (m.heap.enclose method.scope thisName (.instance receiver)).1
  have received : Received visited accepted (m.heap.enclose method.scope thisName (.instance receiver)).2
      (.classDecl name superclass? methods line) inner receiver c method := by
    obtain ⟨i, found, reaches⟩ := descends
    obtain ⟨i', found', same, -⟩ := grows.instances receiver i found
    refine ⟨⟨?_, ?_, bindable'.1, i', found', same ▸ grows.reaches reaches⟩, chain, declared.mono grows⟩
    · rw [Heap.binding?_enclose, if_pos rfl]
    · rw [Heap.frame?_enclose, if_pos rfl]
      rfl
  have special : Special visited accepted (m.heap.enclose method.scope thisName (.instance receiver)).2 inner
      thisName (.instance receiver) :=
    ⟨fun _ => ⟨receiver, rfl, _, c, method, received⟩, fun same => absurd same (by decide)⟩
  rw [bindMethod_eq]
  refine (safe_enclose method.scope special).bind fun r m₁ _ _ ⟨made, same⟩ => Safe.pure fun _ => ⟨rfl, ?_⟩
  rw [same, made]
  refine ⟨?_, Or.inr ⟨_, receiver, c, method, received, rfl⟩⟩
  cases declared with
  | intro inside stands =>
    refine ⟨_, _, inside, .method stands member, fun arguments m' met => ?_⟩
    exact tracks.enclose ⟨_, arguments, m', met, member, rfl⟩ ⟨receiver, c, method, received⟩

theorem safe_methodValue {method : Closure} {receiver : Ref .instance} {c : Ref .classObject}
    (bindable : Bindable visited accepted m.heap c method)
    (descends : ∃ i, m.heap.instance? receiver = some i ∧ m.heap.Reaches i.classRef c) :
    ScopeSafe visited accepted distances n (fun _ => methodValue method receiver) m fun _ _ => True := by
  refine (safe_bindMethod bindable descends).bind fun bound m₁ _ _ ⟨_, callable⟩ => ?_
  have made : ScopeSafe visited accepted distances n (fun _ => make (·.addClosure bound)) m₁ fun _ _ => True :=
    Safe.any (Safe.make (fun sound => sound.addClosure callable) (.of_heap (.addClosure m₁.heap bound)))
  exact made.bind fun _ _ _ _ _ => safe_done

theorem safe_readProperty (receiver : Ref .instance) (name : String) (line : Nat) :
    ScopeSafe visited accepted distances n (fun _ => readProperty receiver name line) m fun _ _ => True := by
  refine (Safe.read _).bind fun value? m₁ _ _ _ => ?_
  cases value? with
  | some value => exact safe_done
  | none =>
    refine (Safe.read _).bind fun method? m₂ _ _ ⟨same, found⟩ => ?_
    refine (Safe.ofOption method?).bind fun method m₃ sound _ ⟨same', isMethod⟩ => ?_
    rw [found] at isMethod
    obtain ⟨i, isInstance, isMethod⟩ := Option.bind_eq_some_iff.mp isMethod
    rw [← same, ← same'] at isMethod isInstance
    obtain ⟨owner, reaches, bindable⟩ := sound.method isMethod
    exact safe_methodValue bindable ⟨i, isInstance, reaches⟩

/-- Where `super` is bound next to the frame that binds `this`, it is the superclass of the class whose method
that frame is for. -/
theorem WellScoped.super_link {r outer : Ref .frame} {receiver : Ref .instance} {superclass : Ref .classObject}
    (sound : WellScoped visited accepted h) (this : h.binding? r thisName = some (.instance receiver))
    (outside : (h.frame? r).bind (·.parent?) = some outer)
    (super : h.binding? outer superName = some (.classObject superclass)) :
    ∃ i, h.instance? receiver = some i ∧ h.Reaches i.classRef superclass := by
  obtain ⟨_, same, decl, c, method, received⟩ := (sound.special r thisName _ this).1 rfl
  obtain rfl := Value.instance.inj same
  obtain ⟨⟨-, parent, -, i, found, reaches⟩, chain, declared⟩ := received
  obtain rfl := Option.some.inj (outside.symm.trans parent)
  refine ⟨i, found, reaches.tail ?_⟩
  cases declared with
  | intro _ _ _ _ _ made _ binds =>
    rw [super] at binds
    rw [Heap.Extends, made]
    obtain ⟨s, is, same⟩ := Option.map_eq_some_iff.mp binds.symm
    exact Value.classObject.inj same ▸ is

theorem ancestor?_succ {r outer : Ref .frame} {d : Nat} (reached : h.ancestor? frame (d + 1) = some outer)
    (inner : h.ancestor? frame d = some r) : (h.frame? r).bind (·.parent?) = some outer := by
  induction d generalizing frame with
  | zero =>
    obtain rfl := Option.some.inj inner
    obtain ⟨around, parent, same⟩ := Option.bind_eq_some_iff.mp reached
    exact parent.trans same
  | succ d ih =>
    obtain ⟨around, parent, onward⟩ := Option.bind_eq_some_iff.mp reached
    rw [Heap.ancestor?, parent] at inner
    exact ih onward inner

theorem safe_readSuper (id : Nat) (name : String) (line : Nat) :
    ScopeSafe visited accepted distances n (fun _ => readSuper distances frame id name line) m
      fun _ _ => True := by
  unfold readSuper
  cases distances.get? id with
  | none => exact Safe.fault
  | some distance =>
    cases distance with
    | zero => exact Safe.fault
    | succ distance =>
      refine (Safe.read _).bind fun super? m₁ _ _ ⟨rfl, superRead⟩ => ?_
      cases super? with
      | none => exact Safe.fault
      | some super =>
        cases super with
        | classObject superclass =>
          refine (Safe.read _).bind fun this? m₂ _ _ ⟨rfl, thisRead⟩ => ?_
          cases this? with
          | none => exact Safe.fault
          | some this =>
            cases this with
            | «instance» receiver =>
              refine (Safe.read _).bind fun method? m₃ _ _ ⟨rfl, found⟩ => ?_
              refine (Safe.ofOption method?).bind fun method m₄ sound _ ⟨rfl, isMethod⟩ => ?_
              obtain ⟨outer, outside, super⟩ := Option.bind_eq_some_iff.mp superRead.symm
              obtain ⟨inner, inside, this⟩ := Option.bind_eq_some_iff.mp thisRead.symm
              obtain ⟨i, isInstance, reaches⟩ := sound.super_link this (ancestor?_succ outside inside) super
              obtain ⟨owner, further, bindable⟩ := sound.method (found.symm.trans isMethod)
              exact safe_methodValue bindable ⟨i, isInstance, reaches.trans further⟩
            | _ => exact Safe.fault
        | _ => exact Safe.fault

theorem safe_locate (sequence index : Value) (line : Nat) :
    ScopeSafe visited accepted distances n (fun _ => locate sequence index line) m fun _ _ => True := by
  refine (Safe.ofOption _).bind fun array m₁ _ _ _ => (Safe.read _).bind fun length m₂ _ _ _ => ?_
  exact (safe_ofExcept _).bind fun place m₃ _ _ _ => safe_done

theorem safe_readElement (sequence index : Value) (line : Nat) :
    ScopeSafe visited accepted distances n (fun _ => readElement sequence index line) m fun _ _ => True :=
  (safe_locate sequence index line).bind fun _ _ _ _ _ => safe_read _

theorem safe_assignElement (sequence index value : Value) (line : Nat) :
    ScopeSafe visited accepted distances n (fun _ => assignElement sequence index value line) m
      fun _ _ => True := by
  refine (safe_locate sequence index line).bind fun place m₁ _ _ _ => ?_
  exact (safe_change (.setElement m₁.heap place.1 place.2 value) rfl rfl rfl).bind fun _ _ _ _ _ => safe_done

theorem safe_native (f : Native) (arguments : List Value) (line : Nat) :
    ScopeSafe visited accepted distances n (fun _ => f.run arguments line) m fun _ _ => True := by
  unfold Native.run
  split
  · exact (safe_read _).bind fun _ _ _ _ _ => safe_done
  · next array value _ =>
    refine (safe_change (.pushElement m.heap array value) rfl rfl rfl).bind fun _ m₁ _ _ _ => ?_
    exact (safe_read _).bind fun _ _ _ _ _ => safe_done
  · exact Safe.fault

theorem safe_checkArity (expected found line : Nat) :
    ScopeSafe visited accepted distances n (fun _ => checkArity expected found line) m fun _ m' =>
      m' = m ∧ found = expected := by
  unfold checkArity
  split
  · next same => exact Safe.pure fun _ => ⟨rfl, same⟩
  · exact Safe.fault

end Operations

/-! ### Parts of programs -/

/-- An evaluator of some depth keeps the frames in step with the scopes. -/
structure KeepsScopes (visited : Point → Prop) (accepted : List Stmt → Prop) (distances : Distances) (n : Nat) :
    Prop where
  expr : ∀ {m frame e chain pending?}, RefersAt visited accepted m.heap frame chain pending? e.references →
    ScopeSafe visited accepted distances n (fun self => self.expr frame e) m fun _ _ => True
  stmt : ∀ {m frame s chain inLoop inFunction},
    StandsAt visited accepted m.heap frame chain inLoop inFunction (.stmt s) →
    ScopeSafe visited accepted distances n (fun self => self.stmt frame s) m fun flow m' =>
      flow = .normal ∨ s.Initial → Tracks visited accepted m'.heap frame (s.after chain)
  invoke : ∀ {m closure arguments}, arguments.length = closure.decl.params.length →
    Callable visited accepted m.heap closure →
    ScopeSafe visited accepted distances n (fun self => self.invoke closure arguments) m fun _ _ => True

variable (ih : KeepsScopes visited accepted distances n)

section Expressions

include ih

theorem safe_call (callee : Value) (arguments : List Value) (line : Nat) :
    ScopeSafe visited accepted distances n (fun self => call self.invoke callee arguments line) m
      fun _ _ => True := by
  cases callee with
  | function r =>
    refine (Safe.read _).bind fun closure? m₁ _ _ ⟨same, found⟩ => ?_
    refine (Safe.ofOption closure?).bind fun closure m₂ _ _ ⟨same', is⟩ => ?_
    refine (safe_checkArity _ _ _).bind fun _ m₃ sound _ ⟨same'', arity⟩ => ?_
    rw [found, ← same, ← same', ← same''] at is
    exact ih.invoke arity (sound.closures r closure is)
  | native f =>
    refine (safe_checkArity _ _ _).bind fun _ m₁ _ _ _ => ?_
    exact safe_native f arguments line
  | classObject r =>
    refine (Safe.read _).bind fun initializer? m₁ sound _ ⟨same, found⟩ => ?_
    cases initializer? with
    | none =>
      refine (safe_checkArity _ _ _).bind fun _ m₂ _ _ _ => ?_
      exact (safe_make (.addInstance m₂.heap r) rfl rfl rfl).bind fun receiver m₃ _ _ _ => safe_done
    | some initializer =>
      rw [← same] at found
      obtain ⟨owner, reaches, bindable⟩ := sound.method found.symm
      -- The initializer is looked up before the instance is made, which leaves it bindable.
      refine (safe_checkArity _ _ _).bind fun _ m₂ _ grows ⟨_, arity⟩ => ?_
      refine (safe_make (.addInstance m₂.heap r) rfl rfl rfl).bind fun receiver m₃ _ grows' ⟨made, same'⟩ => ?_
      have later := grows.heap.trans grows'.heap
      have descends : ∃ i, m₃.heap.instance? receiver = some i ∧ m₃.heap.Reaches i.classRef owner := by
        refine ⟨⟨r, []⟩, ?_, later.reaches reaches⟩
        rw [same', made, Heap.instance?_addInstance, if_pos rfl]
      refine (safe_bindMethod (bindable.mono later) descends).bind fun bound m₄ _ _ ⟨decl, callable⟩ => ?_
      refine (ih.invoke ?_ callable).bind fun _ m₅ _ _ _ => safe_done
      rw [decl, arity]
  | _ => exact Safe.fault

theorem safe_each {es : List Expr}
    (refersAt : RefersAt visited accepted m.heap frame chain pending? (Expr.referencesAll es)) :
    ScopeSafe visited accepted distances n (fun self => each (self.expr frame) es) m fun _ _ => True :=
  Safe.each es fun _ member _ grows => ih.expr (refersAt.sub grows.heap (Expr.references_mem member))

theorem safe_test {e : Expr} (refersAt : RefersAt visited accepted m.heap frame chain pending? e.references) :
    ScopeSafe visited accepted distances n (fun self => self.test frame e) m fun _ _ => True :=
  (ih.expr refersAt).bind fun _ _ _ _ _ => safe_done

theorem safe_exprOrNil {e? : Option Expr}
    (refersAt : RefersAt visited accepted m.heap frame chain pending? (Expr.referencesOpt e?)) :
    ScopeSafe visited accepted distances n (fun self => self.exprOrNil frame e?) m fun _ _ => True := by
  cases e? with
  | none => exact safe_done
  | some e =>
    rw [Expr.referencesOpt_some] at refersAt
    exact ih.expr refersAt

theorem safe_testOrTrue {e? : Option Expr}
    (refersAt : RefersAt visited accepted m.heap frame chain pending? (Expr.referencesOpt e?)) :
    ScopeSafe visited accepted distances n (fun self => self.testOrTrue frame e?) m fun _ _ => True := by
  cases e? with
  | none => exact safe_done
  | some e =>
    rw [Expr.referencesOpt_some] at refersAt
    exact safe_test ih refersAt

theorem safe_evalExpr {e : Expr} (refersAt : RefersAt visited accepted m.heap frame chain pending? e.references) :
    ScopeSafe visited accepted distances n (fun self => self.evalExpr distances frame e) m fun _ _ => True := by
  cases e with
  | literal value => exact safe_done
  | group inner => exact ih.expr refersAt
  | unary op operand line => exact (ih.expr (e := operand) refersAt).bind fun _ _ _ _ _ => safe_ofExcept _
  | binary op left right line =>
    refine (ih.expr (refersAt.sub (.refl _) fun ref => List.mem_append_left _)).bind fun l m₁ _ grows _ => ?_
    refine Safe.ite (fun _ => safe_done) fun _ => ?_
    refine (ih.expr (refersAt.sub grows.heap fun ref => List.mem_append_right _)).bind fun r m₂ _ _ _ => ?_
    exact safe_ofExcept _
  | conditional test consequent alternative =>
    have tested := safe_test ih (refersAt.sub (.refl _) fun ref => List.mem_append_left _)
    refine tested.bind fun truth m₁ _ grows _ => ?_
    have branches := refersAt.sub grows.heap fun ref => List.mem_append_right test.references
    refine Safe.ite (fun _ => ?_) fun _ => ?_
    · exact ih.expr (branches.sub (.refl _) fun ref => List.mem_append_left _)
    · exact ih.expr (branches.sub (.refl _) fun ref => List.mem_append_right _)
  | var use => exact (safe_readVariable use).any
  | assign target value =>
    have proper : target.name ≠ thisName ∧ target.name ≠ superName := by
      obtain ⟨program, _, refers, _⟩ := refersAt
      exact refers.proper _ List.mem_cons_self rfl
    refine (ih.expr (refersAt.sub (.refl _) fun ref => List.mem_cons_of_mem _)).bind fun v m₁ _ _ _ => ?_
    exact safe_assignVariable target v proper
  | thisRef id line => exact (safe_readVariable _).any
  | superRef id method line => exact safe_readSuper id method line
  | call callee arguments line =>
    refine (ih.expr (refersAt.sub (.refl _) fun ref => List.mem_append_left _)).bind fun f m₁ _ grows _ => ?_
    refine (safe_each ih (refersAt.sub grows.heap fun ref => List.mem_append_right _)).bind fun vs m₂ _ _ _ => ?_
    exact safe_call ih f vs line
  | field object name line =>
    refine (ih.expr (e := object) refersAt).bind fun v m₁ _ _ _ => ?_
    refine (Safe.ofOption _).bind fun receiver m₂ _ _ _ => ?_
    exact safe_readProperty receiver name line
  | setField object name value line =>
    refine (ih.expr (refersAt.sub (.refl _) fun ref => List.mem_append_left _)).bind fun v m₁ _ grows _ => ?_
    refine (Safe.ofOption _).bind fun receiver m₂ _ grows' _ => ?_
    have later := grows.heap.trans grows'.heap
    refine (ih.expr (refersAt.sub later fun ref => List.mem_append_right _)).bind fun w m₃ _ _ _ => ?_
    exact (safe_change (.setField m₃.heap receiver name w) rfl rfl rfl).bind fun _ _ _ _ _ => safe_done
  | array elements =>
    refine (safe_each ih refersAt).bind fun vs m₁ _ _ _ => ?_
    exact (safe_make (.addArray m₁.heap vs.toArray) rfl rfl rfl).bind fun _ _ _ _ _ => safe_done
  | element sequence index line =>
    refine (ih.expr (refersAt.sub (.refl _) fun ref => List.mem_append_left _)).bind fun s m₁ _ grows _ => ?_
    refine (ih.expr (refersAt.sub grows.heap fun ref => List.mem_append_right _)).bind fun i m₂ _ _ _ => ?_
    exact safe_readElement s i line
  | setElement sequence index value line =>
    refine (ih.expr (refersAt.sub (.refl _) fun ref => List.mem_append_left _)).bind fun s m₁ _ grows _ => ?_
    have others := refersAt.sub grows.heap fun ref => List.mem_append_right sequence.references
    refine (ih.expr (others.sub (.refl _) fun ref => List.mem_append_left _)).bind fun i m₂ _ grows' _ => ?_
    refine (ih.expr (others.sub grows'.heap fun ref => List.mem_append_right _)).bind fun v m₃ _ _ _ => ?_
    exact safe_assignElement s i v line

end Expressions

section Classes

theorem readSuperclass_congr {other : Distances} {superclass? : Option Use}
    (same : ∀ use, superclass? = some use → other.get? use.id = distances.get? use.id) (frame : Ref .frame)
    (line : Nat) : readSuperclass other frame line superclass? = readSuperclass distances frame line superclass? := by
  cases superclass? with
  | none => rfl
  | some use =>
    have target (h : Heap) : h.target? other frame use.id = h.target? distances frame use.id := by
      rw [Heap.target?, Heap.target?, same use rfl]
    have read : readVariable other frame use = readVariable distances frame use := by
      simp only [readVariable, Heap.lookup?, target]
    rw [readSuperclass, readSuperclass, read]

theorem safe_readSuperclass (superclass? : Option Use) (line : Nat) :
    ScopeSafe visited accepted distances n (fun _ => readSuperclass distances frame line superclass?) m
      fun superclass m' => m' = m ∧ superclass.isSome = superclass?.isSome ∧
        readSuperclass distances frame line superclass? m = .ok superclass m := by
  cases superclass? with
  | none => exact Safe.pure fun _ => ⟨rfl, rfl, rfl⟩
  | some use =>
    refine (safe_readVariable use).bind fun value m₁ _ _ ⟨same, found⟩ => ?_
    cases value with
    | classObject r => exact Safe.pure fun _ => ⟨same, rfl, bind_of_ok found _⟩
    | _ => exact Safe.fault

theorem readVariable_eq (use : Use) (m : Machine) :
    readVariable distances frame use m = ofOption use.line (.undefinedVariable use.name)
      (m.heap.lookup? distances frame use.id use.name) m :=
  rfl

/-- A superclass that was read is a class of a closed heap. -/
theorem readSuperclass_present {superclass? : Option Use} {superclass : Option (Ref .classObject)} {line : Nat}
    {m' : Machine} (closed : m.heap.Closed)
    (done : readSuperclass distances frame line superclass? m = .ok superclass m') :
    ∀ s, superclass = some s → s.index < m.heap.classes.size := by
  cases superclass? with
  | none =>
    cases done
    exact fun _ same => nomatch same
  | some use =>
    have reads := @readVariable_eq distances frame use m
    cases found : m.heap.lookup? distances frame use.id use.name with
    | none =>
      rw [found] at reads
      cases (bind_of_error reads _).symm.trans done
    | some value =>
      rw [found] at reads
      have done := (bind_of_ok reads _).symm.trans done
      obtain ⟨target, -, bound⟩ := Option.bind_eq_some_iff.mp found
      cases value with
      | classObject r =>
        cases done
        rintro s ⟨⟩
        exact closed.bindings target use.name _ bound
      | _ => cases done

/-- The frame of the methods of a class is made in one step. -/
theorem methodScope_some (superclass : Ref .classObject) :
    methodScope frame (some superclass) = make (·.enclose frame superName (.classObject superclass)) :=
  rfl

/-- The frame of the methods of a class tracks the scopes around them. -/
theorem safe_methodScope {decl : Stmt} {name : String} {superclass? : Option Use}
    {superclass : Option (Ref .classObject)} (same : superclass.isSome = superclass?.isSome)
    (tracks : Tracks visited accepted m.heap frame (declareName name chain)) (plain : m.heap.Plain frame)
    (made : InstanceOf visited (.superclass decl) (m.heap.addFrame frame).1) :
    ScopeSafe visited accepted distances n (fun _ => methodScope frame superclass) m fun scope m' =>
      Tracks visited accepted m'.heap scope (methodChain decl name chain superclass?) ∧
      (m'.heap.frame? scope).isSome ∧ m'.heap.binding? scope superName = superclass.map .classObject ∧
      m'.heap.classes = m.heap.classes := by
  cases superclass with
  | none =>
    cases superclass? with
    | none => exact Safe.pure fun _ => ⟨tracks, plain.1, plain.2.2, rfl⟩
    | some use => cases same
  | some superclass =>
    cases superclass? with
    | none => cases same
    | some use =>
      have special : Special visited accepted (m.heap.enclose frame superName (.classObject superclass)).2
          (m.heap.enclose frame superName (.classObject superclass)).1 superName (.classObject superclass) :=
        ⟨fun same => absurd same (by decide), fun _ => ⟨superclass, rfl⟩⟩
      rw [methodScope_some]
      refine (safe_enclose frame special).imp fun scope m' _ _ ⟨fresh, same⟩ => ?_
      rw [same, fresh]
      refine ⟨tracks.enclose made trivial, ?_, ?_, rfl⟩
      · rw [Heap.frame?_enclose, if_pos rfl]
        rfl
      · rw [Heap.binding?_enclose, if_pos rfl]
        rfl

variable (known : ∀ program, accepted program → Sound distances program)

include known in
theorem accepted_fits {program : List Stmt} {part : Part} (inside : accepted program)
    (stands : Stands program chain inLoop inFunction part) : part.Fits program chain inLoop inFunction :=
  stands.fits (known program inside).strata (known program inside).placed (known program inside).lexical

include known in
/-- What a superclass is read from does not depend on what else is known. -/
theorem superclass_known {name : String} {superclass? : Option Use} {methods : List FunctionDecl} {line : Nat}
    {program : List Stmt} (inside : accepted program)
    (stands : Stands program chain inLoop inFunction (.stmt (.classDecl name superclass? methods line)))
    {other : Distances} (sound : Sound other program) :
    readSuperclass other frame line superclass? = readSuperclass distances frame line superclass? := by
  have fits := accepted_fits known inside stands
  refine readSuperclass_congr (fun use same => ?_) frame line
  subst same
  have member : (⟨chain, none, ⟨use.id, use.name, false⟩⟩ : Site) ∈ Stmt.sitesAll program [] :=
    fits.sites _ (List.mem_append_left _ List.mem_cons_self)
  have here := ((known program inside).agrees _ member).2 (by simp)
  exact ((sound.agrees _ member).2 (by simp)).trans here.symm

include known in
theorem safe_declareClass (closed : ∀ p, visited p → p.machine.heap.Closed) {name : String}
    {superclass? : Option Use} {methods : List FunctionDecl} {line : Nat}
    (standsAt : StandsAt visited accepted m.heap frame chain inLoop inFunction
      (.stmt (.classDecl name superclass? methods line)))
    (met : visited ⟨.stmt frame (.classDecl name superclass? methods line), m⟩) :
    ScopeSafe visited accepted distances n (fun _ => declareClass distances frame name superclass? methods line) m
      fun _ m' => Tracks visited accepted m'.heap frame (declareName name chain) := by
  obtain ⟨program, inside, stands, tracks⟩ := standsAt
  have proper : name ≠ thisName ∧ name ≠ superName := by
    have lexical := (accepted_fits known inside stands).lexical
    simp [Part.tokens, Stmt.tokens] at lexical
    exact lexical.1
  refine (safe_readSuperclass superclass? line).bind fun superclass m₁ sound _ read => ?_
  obtain ⟨same, present, found⟩ := read
  rw [same] at sound
  have plain := tracks.plain sound.globals (stands.plain (by simp))
  -- The name is bound from here on, so the frame tracks the scopes around the methods before the class is made.
  refine (safe_bind frame proper .nil).bind fun _ m₂ _ grows₂ same₂ => ?_
  rw [same] at grows₂ same₂
  have declared : Tracks visited accepted m₂.heap frame (declareName name chain) := by
    rw [same₂]
    exact tracks.declare proper .nil
  have made : InstanceOf visited (.superclass (.classDecl name superclass? methods line))
      (m₂.heap.addFrame frame).1 := by
    refine ⟨frame, m, met, ?_⟩
    rw [same₂]
    simp [Heap.addFrame, Heap.bind]
  refine (safe_methodScope present declared (plain.mono grows₂.heap) made).bind
    fun scope m₃ _ grows₃ new => ?_
  obtain ⟨around, there, super, classes⟩ := new
  have first : m₃.heap.classes.size = m.heap.classes.size := by
    rw [classes, same₂]
    rfl
  let newClass : ClassObject := ⟨name, superclass, methodTable scope methods⟩
  have grows₄ := Heap.Grows.addClass m₃.heap newClass
  have is : (m₃.heap.addClass newClass).2.classObject? (m₃.heap.addClass newClass).1 = some newClass := by
    rw [Heap.classObject?_addClass, if_pos rfl]
  have bindable (key : String) (method : Closure) (has : newClass.methods.get? key = some method) :
      Bindable visited accepted (m₃.heap.addClass newClass).2 (m₃.heap.addClass newClass).1 method := by
    obtain ⟨decl, member, -, rfl⟩ := methodTable_get? has
    refine ⟨⟨key, ?_⟩, chain, name, superclass?, methods, line, member, ?_, around.mono grows₄⟩
    · rw [Heap.ownMethod?, is]
      exact has
    · refine .intro inside stands met (fun other sound => ?_) first is (grows₄.frames.present there) super
      rw [superclass_known known inside stands sound]
      exact found
  have older : ∀ s, superclass = some s → s.index < m₃.heap.classes.size := by
    rw [first]
    exact readSuperclass_present (closed _ met) found
  have made : ScopeSafe visited accepted distances n (fun _ => make (·.addClass newClass)) m₃ _ :=
    Safe.make (fun sound => sound.addClass bindable older) (.of_heap grows₄)
  refine made.bind fun r m₄ _ grows₄ _ => ?_
  refine (safe_bind frame proper (.classObject r)).imp fun _ m₅ _ grows₅ _ => ?_
  exact declared.mono (grows₃.heap.trans (grows₄.heap.trans grows₅.heap))

/-- A function may be called from where its name is bound: its frame binds the name as well. -/
theorem safe_funDecl {decl : FunctionDecl} (proper : decl.name ≠ thisName ∧ decl.name ≠ superName)
    (standsAt : StandsAt visited accepted m.heap frame chain inLoop inFunction (.stmt (.funDecl decl))) (k : Nat) :
    ScopeSafe visited accepted distances n (fun self => self.execStmt distances k frame (.funDecl decl)) m
      fun _ m' => Tracks visited accepted m'.heap frame (declareName decl.name chain) := by
  obtain ⟨program, inside, stands, tracks⟩ := standsAt
  let value := Value.function (m.heap.addClosure ⟨decl, frame, false⟩).1
  have declared := tracks.declare proper value
  have grows := Heap.Grows.bind m.heap frame proper value
  have grows' := Heap.Grows.addClosure (m.heap.bind frame decl.name value) ⟨decl, frame, false⟩
  -- To bind the name first and to make the closure then comes to the same heap.
  refine Safe.const fun sound => ⟨?_, .of_heap (grows.trans grows'), declared.mono grows'⟩
  have plain := tracks.plain sound.globals (stands.plain (by simp))
  have callable : Callable visited accepted (m.heap.bind frame decl.name value) ⟨decl, frame, false⟩ :=
    ⟨⟨program, _, inside, stands.function, fun _ _ _ => declared⟩, Or.inl (plain.mono grows)⟩
  exact (sound.bind frame proper value).addClosure callable

end Classes

section Statements

theorem bindParams_sound {params : List String} {arguments : List Value}
    (proper : ∀ name ∈ params, name ≠ thisName ∧ name ≠ superName) (sound : WellScoped visited accepted h) :
    WellScoped visited accepted (bindParams frame params arguments h) := by
  unfold bindParams
  have all (pairs : List (String × Value)) (named : ∀ pair ∈ pairs, pair.1 ∈ params) (h : Heap)
      (sound : WellScoped visited accepted h) :
      WellScoped visited accepted (pairs.foldl (fun h pair => h.bind frame pair.1 pair.2) h) := by
    induction pairs generalizing h with
    | nil => exact sound
    | cons pair pairs ih =>
      refine ih (fun other member => named other (List.mem_cons_of_mem _ member)) _ ?_
      exact sound.bind frame (proper _ (named pair List.mem_cons_self)) pair.2
  exact all _ (fun pair member => (List.of_mem_zip member).1) h sound

theorem bindParams_grows {params : List String} (proper : ∀ name ∈ params, name ≠ thisName ∧ name ≠ superName)
    (frame : Ref .frame) (arguments : List Value) (h : Heap) : h.Grows (bindParams frame params arguments h) := by
  unfold bindParams
  have all (pairs : List (String × Value)) (named : ∀ pair ∈ pairs, pair.1 ∈ params) (h : Heap) :
      h.Grows (pairs.foldl (fun h pair => h.bind frame pair.1 pair.2) h) := by
    induction pairs generalizing h with
    | nil => exact .refl h
    | cons pair pairs ih =>
      refine (Heap.Grows.bind h frame (proper _ (named pair List.mem_cons_self)) pair.2).trans ?_
      exact ih (fun other member => named other (List.mem_cons_of_mem _ member)) _
  exact all _ (fun pair member => (List.of_mem_zip member).1) h

theorem bindParams_partOf (frame : Ref .frame) (params : List String) (arguments : List Value) (m : Machine) :
    m.heap.PartOf (bindParams frame params arguments m.heap) :=
  allows_partOf.bindParams frame params arguments m

theorem bindParams_bound {params : List String} {arguments : List Value}
    (arity : arguments.length = params.length) (m : Machine) (there : (m.heap.frame? frame).isSome) :
    ∀ name ∈ params, ((bindParams frame params arguments m.heap).binding? frame name).isSome := by
  induction params generalizing arguments m with
  | nil => exact fun _ member => nomatch member
  | cons first params ih =>
    cases arguments with
    | nil => cases arity
    | cons value arguments =>
      let next : Machine := { m with heap := m.heap.bind frame first value }
      have part : m.heap.PartOf next.heap := .bind m.heap frame first value
      intro name member
      rcases List.mem_cons.mp member with rfl | member
      · refine (bindParams_partOf frame params arguments next).binding ?_
        rw [m.heap.binding?_bind_self there]
        rfl
      · exact ih (Nat.succ.inj arity) next (part.present there) name member

variable (known : ∀ program, accepted program → Sound distances program)

include ih

theorem safe_inOrder {ss : List Stmt}
    (standsAt : StandsAt visited accepted m.heap frame chain inLoop inFunction (.stmts ss)) :
    ScopeSafe visited accepted distances n (fun self => inOrder (self.stmt frame) ss) m fun _ _ => True := by
  induction ss generalizing m chain with
  | nil => exact safe_done
  | cons s ss rest =>
    obtain ⟨program, inside, stands, tracks⟩ := standsAt
    refine (ih.stmt ⟨program, inside, stands.first, tracks⟩).bind fun flow m₁ _ _ after => ?_
    cases flow with
    | normal => exact rest ⟨program, inside, stands.others, after (Or.inl rfl)⟩
    | _ => exact safe_done

theorem safe_execInitial {initial? : Option Stmt}
    (standsAt : ∀ initial, initial? = some initial →
      StandsAt visited accepted m.heap frame chain inLoop inFunction (.stmt initial))
    (tracks : Tracks visited accepted m.heap frame chain) (simple : ∀ initial, initial? = some initial → initial.Initial) :
    ScopeSafe visited accepted distances n (fun self => self.execInitial frame initial?) m fun _ m' =>
      Tracks visited accepted m'.heap frame (initialChain chain initial?) := by
  cases initial? with
  | none => exact Safe.pure fun _ => tracks
  | some initial =>
    refine (ih.stmt (standsAt initial rfl)).bind fun flow m₁ _ _ after => Safe.pure fun _ => ?_
    exact after (Or.inr (simple initial rfl))

theorem safe_execRound {body : Stmt} {step? : Option Expr}
    (standsAt : StandsAt visited accepted m.heap frame chain inLoop inFunction (.stmt body))
    (refersAt : RefersAt visited accepted m.heap frame chain pending? (Expr.referencesOpt step?)) :
    ScopeSafe visited accepted distances n (fun self => self.execRound frame body step?) m fun _ _ => True := by
  refine (ih.stmt standsAt).bind fun flow m₁ _ grows _ => ?_
  have step := safe_exprOrNil ih (refersAt.mono grows.heap)
  cases flow with
  | normal => exact step.bind fun _ _ _ _ _ => safe_done
  | continued => exact step.bind fun _ _ _ _ _ => safe_done
  | _ => exact safe_done

theorem safe_block {body : List Stmt}
    (standsAt : StandsAt visited accepted m.heap frame chain inLoop inFunction (.stmt (.block body)))
    (met : visited ⟨.stmt frame (.block body), m⟩) (k : Nat) :
    ScopeSafe visited accepted distances n (fun self => self.execStmt distances k frame (.block body)) m
      fun _ _ => True := by
  obtain ⟨program, inside, stands, tracks⟩ := standsAt
  have entered := tracks.enter (.stmt (.block body)) trivial ⟨frame, m, met, rfl⟩
  refine (safe_addFrame frame).bind fun inner m₁ _ _ ⟨made, same⟩ => ?_
  rw [← made, show (m.heap.addFrame frame).2 = m₁.heap by rw [same]] at entered
  exact safe_inOrder ih ⟨program, inside, stands.block, entered⟩

theorem safe_print {items : List Expr} {line : Nat}
    (refersAt : RefersAt visited accepted m.heap frame chain pending? (Expr.referencesAll items)) (k : Nat) :
    ScopeSafe visited accepted distances n (fun self => self.execStmt distances k frame (.print items line)) m
      fun _ _ => True := by
  have texts : ScopeSafe visited accepted distances n (fun self => each (self.textOf frame) items) m
      fun _ _ => True := by
    refine Safe.each items fun e member m₁ grows => ?_
    exact (ih.expr (refersAt.sub grows.heap (Expr.references_mem member))).bind fun _ _ _ _ _ => safe_read _
  refine texts.bind fun texts m₁ _ _ _ => (Safe.printLine fun _ sound => ?_).bind fun _ _ _ _ _ => safe_done
  exact ⟨sound, .write m₁ _⟩

include known

theorem safe_invokeClosure {closure : Closure} {arguments : List Value}
    (arity : arguments.length = closure.decl.params.length)
    (standsAt : StandsAt visited accepted m.heap closure.scope chain false true (.function closure.decl))
    (met : visited ⟨.invoke closure arguments, m⟩) :
    ScopeSafe visited accepted distances n (fun self => self.invokeClosure closure arguments) m
      fun _ _ => True := by
  obtain ⟨program, inside, stands, tracks⟩ := standsAt
  have proper := (accepted_fits known inside stands).params
  have entered := tracks.enter (.function closure.decl) trivial ⟨closure, arguments, m, met, rfl, rfl⟩
  -- The new frame was made for the call, and binds the parameters once there are as many arguments.
  refine (safe_addFrame closure.scope).bind fun frame m₁ _ _ ⟨made, same⟩ => ?_
  have there : (m₁.heap.frame? frame).isSome := by
    rw [made, same, frame?_added]
    rfl
  have grows := bindParams_grows proper frame arguments m₁.heap
  have binds : m₁.Grows { m₁ with heap := bindParams frame closure.decl.params arguments m₁.heap } := .of_heap grows
  refine (Safe.change (bindParams_sound proper) binds).bind fun _ m₂ _ _ same' => ?_
  have inner : Tracks visited accepted m₂.heap frame (⟨.function closure.decl, closure.decl.params⟩ :: chain) := by
    rw [← made, show (m.heap.addFrame closure.scope).2 = m₁.heap by rw [same]] at entered
    obtain ⟨instanceOf, seated, -, around, parent, outside⟩ := entered
    rw [same']
    exact ⟨instanceOf, seated.mono grows, bindParams_bound arity m₁ there, around, grows.frames.parent parent,
      outside.mono grows⟩
  refine (safe_inOrder ih ⟨program, inside, stands.body, inner⟩).bind fun flow m₃ _ _ _ => ?_
  refine Safe.ite (fun _ => ?_) fun _ => ?_
  · exact (safe_read _).bind fun _ _ _ _ _ => safe_done
  · cases flow <;> exact safe_done

theorem safe_forLoop {initial? : Option Stmt} {test? step? : Option Expr} {body : Stmt} (k : Nat)
    (standsAt : StandsAt visited accepted m.heap frame chain inLoop inFunction
      (.stmt (.forLoop initial? test? step? body)))
    (met : visited ⟨.stmt frame (.forLoop initial? test? step? body), m⟩) :
    ScopeSafe visited accepted distances n
      (fun self => self.execStmt distances k frame (.forLoop initial? test? step? body)) m fun _ _ => True := by
  obtain ⟨program, inside, stands, tracks⟩ := standsAt
  have fits := accepted_fits known inside stands
  have fitsBody := accepted_fits known inside stands.forBody
  have entered := tracks.enter (.stmt (.forLoop initial? test? step? body)) trivial ⟨frame, m, met, rfl⟩
  refine (safe_addFrame frame).bind fun inner m₁ _ _ ⟨made, same⟩ => ?_
  rw [← made, show (m.heap.addFrame frame).2 = m₁.heap by rw [same]] at entered
  have first (initial : Stmt) (found : initial? = some initial) : initial.Initial ∧
      StandsAt visited accepted m₁.heap inner (⟨.stmt (.forLoop initial? test? step? body), []⟩ :: chain)
        inLoop inFunction (.stmt initial) := by
    subst found
    exact ⟨fits.strata.1.1, program, inside, stands.initial, entered⟩
  have clauses : Refers program
      (initialChain (⟨.stmt (.forLoop initial? test? step? body), []⟩ :: chain) initial?) none
      (Expr.referencesOpt test? ++ Expr.referencesOpt step?) := by
    refine fits.refers (fun site member => ?_) (fun ref member assigned => ?_) fitsBody.paired
    · cases initial? with
      | none => exact List.mem_append_left _ member
      | some initial => exact List.mem_append_right _ (List.mem_append_left _ member)
    · have spelled : .identifier ref.name ∈ Expr.optTokens test? ++ Expr.optTokens step? := by
        rcases List.mem_append.mp member with member | member
        · exact List.mem_append_left _ (Expr.assigned_optToken test? ref member assigned)
        · exact List.mem_append_right _ (Expr.assigned_optToken step? ref member assigned)
      rcases List.mem_append.mp spelled with spelled | spelled
      · cases initial? <;> simp [Stmt.tokens, spelled]
      · cases initial? <;> simp [Stmt.tokens, spelled]
  refine (safe_execInitial ih (fun initial found => (first initial found).2) entered
    fun initial found => (first initial found).1).bind fun _ m₂ _ _ tracks => ?_
  refine Safe.rounds k (fun m₃ grows => ?_) fun m₃ grows => ?_
  · refine safe_testOrTrue ih ⟨program, inside, clauses.sub ?_, tracks.mono grows.heap⟩
    exact fun ref => List.mem_append_left _
  · refine safe_execRound ih ⟨program, inside, stands.forBody, tracks.mono grows.heap⟩
      ⟨program, inside, clauses.sub ?_, tracks.mono grows.heap⟩
    exact fun ref => List.mem_append_right _

theorem safe_varDecl {name : String} {initial? : Option Expr} {line : Nat}
    (standsAt : StandsAt visited accepted m.heap frame chain inLoop inFunction (.stmt (.varDecl name initial? line)))
    (k : Nat) :
    ScopeSafe visited accepted distances n
      (fun self => self.execStmt distances k frame (.varDecl name initial? line)) m
      fun _ m' => Tracks visited accepted m'.heap frame (declareName name chain) := by
  obtain ⟨program, inside, stands, tracks⟩ := standsAt
  have fits := accepted_fits known inside stands
  have refers : Refers program chain (pendingName name chain) (Expr.referencesOpt initial?) := by
    refine fits.refers (fun _ member => member) (fun ref member assigned => ?_) fits.paired
    cases initial? with
    | none => cases member
    | some initial =>
      rw [Expr.referencesOpt_some] at member
      simp [Stmt.tokens, initial.assigned_token ref member assigned]
  have proper : name ≠ thisName ∧ name ≠ superName := by
    have lexical := fits.lexical
    cases initial? with
    | none => simpa [Part.tokens, Stmt.tokens] using lexical
    | some initial =>
      simp [Part.tokens, Stmt.tokens] at lexical
      exact lexical.1
  refine (safe_exprOrNil ih ⟨program, inside, refers, tracks⟩).bind fun v m₁ _ grows _ => ?_
  refine (safe_bind frame proper v).bind fun _ m₂ _ _ same => Safe.pure fun _ => ?_
  rw [same]
  exact (tracks.mono grows.heap).declare proper v

theorem safe_ifElse {test : Expr} {consequent : Stmt} {alternative? : Option Stmt}
    (standsAt : StandsAt visited accepted m.heap frame chain inLoop inFunction
      (.stmt (.ifElse test consequent alternative?))) (k : Nat) :
    ScopeSafe visited accepted distances n
      (fun self => self.execStmt distances k frame (.ifElse test consequent alternative?)) m fun _ _ => True := by
  obtain ⟨program, inside, stands, tracks⟩ := standsAt
  have fits := accepted_fits known inside stands
  have refers : Refers program chain none test.references := by
    refine fits.refers (fun site member => ?_) (fun ref member assigned => ?_) fits.paired
    · cases alternative? <;> exact List.mem_append_left _ member
    · cases alternative? <;> simp [Stmt.tokens, test.assigned_token ref member assigned]
  refine (safe_test ih ⟨program, inside, refers, tracks⟩).bind fun truth m₁ _ grows _ => ?_
  refine Safe.ite (fun _ => ?_) fun _ => ?_
  · exact (ih.stmt ⟨program, inside, stands.consequent, tracks.mono grows.heap⟩).any
  · cases alternative? with
    | none => exact safe_done
    | some alternative => exact (ih.stmt ⟨program, inside, stands.alternative, tracks.mono grows.heap⟩).any

theorem safe_execStmt (closed : ∀ p, visited p → p.machine.heap.Closed) {s : Stmt}
    (standsAt : StandsAt visited accepted m.heap frame chain inLoop inFunction (.stmt s))
    (met : visited ⟨.stmt frame s, m⟩) (k : Nat) :
    ScopeSafe visited accepted distances n (fun self => self.execStmt distances k frame s) m fun flow m' =>
      flow = .normal ∨ s.Initial → Tracks visited accepted m'.heap frame (s.after chain) := by
  obtain ⟨program, inside, stands, tracks⟩ := standsAt
  have fits := accepted_fits known inside stands
  have stays {m' : Machine} (grows : m.Grows m') : Tracks visited accepted m'.heap frame chain :=
    tracks.mono grows.heap
  cases s with
  | expr value =>
    have refers : Refers program chain none value.references :=
      fits.refers (fun _ member => member)
        (fun ref member assigned => by simp [Stmt.tokens, value.assigned_token ref member assigned]) fits.paired
    refine (ih.expr ⟨program, inside, refers, tracks⟩).bind fun _ m₁ _ grows _ => Safe.pure fun _ _ => ?_
    exact stays grows
  | print items line =>
    have refers : Refers program chain none (Expr.referencesAll items) :=
      fits.refers (fun _ member => member)
        (fun ref member assigned => by simp [Stmt.tokens, Expr.assigned_itemToken items ref member assigned])
        fits.paired
    exact (safe_print ih ⟨program, inside, refers, tracks⟩ k).imp fun _ _ _ grows _ _ => stays grows
  | varDecl name initial? line =>
    exact (safe_varDecl ih known ⟨program, inside, stands, tracks⟩ k).imp fun _ _ _ _ after _ => after
  | block body =>
    exact (safe_block ih ⟨program, inside, stands, tracks⟩ met k).imp fun _ _ _ grows _ _ => stays grows
  | ifElse test consequent alternative? =>
    exact (safe_ifElse ih known ⟨program, inside, stands, tracks⟩ k).imp fun _ _ _ grows _ _ => stays grows
  | whileLoop test body =>
    have refers : Refers program chain none test.references :=
      fits.refers (fun site member => List.mem_append_left _ member)
        (fun ref member assigned => by simp [Stmt.tokens, test.assigned_token ref member assigned]) fits.paired
    refine (Safe.rounds k (fun m₁ grows => ?_) fun m₁ grows => ?_).imp fun _ _ _ grows _ _ => stays grows
    · exact safe_test ih ⟨program, inside, refers, stays grows⟩
    · exact (ih.stmt ⟨program, inside, stands.whileBody, stays grows⟩).any
  | forLoop initial? test? step? body =>
    exact (safe_forLoop ih known k ⟨program, inside, stands, tracks⟩ met).imp fun _ _ _ grows _ _ => stays grows
  | breakLoop => exact Safe.pure fun _ _ => tracks
  | continueLoop => exact Safe.pure fun _ _ => tracks
  | funDecl decl =>
    have proper : decl.name ≠ thisName ∧ decl.name ≠ superName := by
      have lexical := fits.lexical
      obtain ⟨name, params, body, line⟩ := decl
      simp [Part.tokens, Stmt.tokens, FunctionDecl.tokens] at lexical
      exact lexical.1
    exact (safe_funDecl proper ⟨program, inside, stands, tracks⟩ k).imp fun _ _ _ _ after _ => after
  | returnValue value? line =>
    have refers : Refers program chain none (Expr.referencesOpt value?) :=
      fits.refers (fun _ member => member)
        (fun ref member assigned => by simp [Stmt.tokens, Expr.assigned_optToken value? ref member assigned])
        fits.paired
    refine (safe_exprOrNil ih ⟨program, inside, refers, tracks⟩).bind fun v m₁ _ grows _ => Safe.pure fun _ _ => ?_
    exact stays grows
  | classDecl name superclass? methods line =>
    refine (safe_declareClass known closed ⟨program, inside, stands, tracks⟩ met).bind fun _ m₁ _ _ after => ?_
    exact Safe.pure fun _ _ => after

end Statements

/-! ### Whole runs -/

theorem keeps_scopes (known : ∀ program, accepted program → Sound distances program)
    (closed : ∀ p, visited p → p.machine.heap.Closed) (n : Nat) :
    KeepsScopes visited accepted distances n := by
  induction n with
  | zero => exact ⟨fun _ => Safe.starved rfl, fun _ => Safe.starved rfl, fun _ _ => Safe.starved rfl⟩
  | succ n ih =>
    constructor
    · intro m frame e chain pending? refersAt
      refine Safe.enter (.expr frame e) (fun self => self.evalExpr distances frame e) rfl (fun _ _ => rfl)
        fun _ => ⟨⟨chain, pending?, refersAt⟩, safe_evalExpr ih refersAt⟩
    · intro m frame s chain inLoop inFunction standsAt
      refine Safe.enter (.stmt frame s) (fun self => self.execStmt distances n frame s) rfl (fun _ _ => rfl)
        fun met => ⟨⟨chain, inLoop, inFunction, standsAt⟩, ?_⟩
      exact safe_execStmt ih known closed standsAt met n
    · intro m closure arguments arity callable
      obtain ⟨⟨program, chain, inside, stands, tracks⟩, -⟩ := callable
      refine Safe.enter (.invoke closure arguments) (fun self => self.invokeClosure closure arguments) rfl
        (fun _ _ => rfl) fun met => ?_
      have standsAt : StandsAt visited accepted m.heap closure.scope chain false true (.function closure.decl) :=
        ⟨program, inside, stands, tracks arguments m met⟩
      exact ⟨⟨arity, chain, standsAt⟩, safe_invokeClosure ih known arity standsAt met⟩

theorem Stmt.after_nil (s : Stmt) : s.after [] = [] := by
  cases s <;> rfl

/-- The run of an accepted program goes by what is expected. -/
theorem safe_interpret (known : ∀ program, accepted program → Sound distances program)
    (closed : ∀ p, visited p → p.machine.heap.Closed) {program : List Stmt}
    (inside : accepted program) (n : Nat) (m : Machine) :
    ScopeSafe visited accepted distances n (fun self => interpret self program) m fun _ _ => True := by
  have all (ss : List Stmt) (m : Machine) (stands : Stands program [] false false (.stmts ss)) :
      ScopeSafe visited accepted distances n (fun self => interpret self ss) m fun _ _ => True := by
    induction ss generalizing m with
    | nil => exact safe_done
    | cons s ss rest =>
      have standsAt : StandsAt visited accepted m.heap Heap.globals [] false false (.stmt s) :=
        ⟨program, inside, stands.first, rfl⟩
      have first := (keeps_scopes known closed n).stmt standsAt
      refine first.bind fun _ m₁ _ _ _ => rest m₁ ?_
      have others := stands.others
      rwa [Stmt.after_nil] at others
  exact all program m .program

end Lox
