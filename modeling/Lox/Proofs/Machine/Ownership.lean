import Lox.Proofs.Machine.Breakpoints
import Lox.Proofs.Machine.Objects

/-!
Owned objects. Suppose that what an owned object refers to is owned, and that only owned objects are changed and
only so that they refer to owned ones. Then a run that starts from owned objects gives owned values, whichever
objects count as owned and whatever else is to hold of the machines on the way.
-/

namespace Lox

open Contract Run

/-- The objects that a task is given. -/
def Task.Given : Task → Object → Prop
  | .expr frame _ => (· = .frame frame)
  | .stmt frame _ => (· = .frame frame)
  | .invoke closure arguments => fun o => o = .frame closure.scope ∨ ∃ v ∈ arguments, v.object? = some o

/-- The object of a value, if it has one, is owned. -/
def Value.Owned (owned : Object → Prop) (v : Value) : Prop :=
  ∀ o, v.object? = some o → owned o

/-- So is that of the value that a statement returns. -/
def Flow.Owned (owned : Object → Prop) (flow : Flow) : Prop :=
  ∀ v, flow = .returned v → v.Owned owned

/-- The rules for what is owned on a machine, in runs that keep to a contract. -/
structure Contract.Owns (c : Contract) (owned : Machine → Object → Prop) : Prop where
  expects : ∀ {task m}, (∀ o, task.Given o → owned m o) → c.visited ⟨task, m⟩ → c.expects ⟨task, m⟩
  globals : ∀ m, owned m (.frame Heap.globals)
  stays : ∀ {m m' o}, c.grows m m' → owned m o → owned m' o
  follows : ∀ {m o o'}, c.holds m → owned m o → (∀ r, o ≠ .classObject r) → m.heap.Links o o' → owned m o'
  /-- What a class refers to counts only as far as methods are found. -/
  method : ∀ {m r name method}, c.holds m → owned m (.classObject r) → m.heap.method? r name = some method →
    owned m (.frame method.scope)
  grows : ∀ {m h' target more}, m.heap.Extended h' target more → c.grows m { m with heap := h' }
  changes : ∀ {m h' target more}, c.holds m → m.heap.Extended h' target more →
    owned m target ∨ ¬ m.heap.Has target → (∀ o, more o → owned m o) → c.holds { m with heap := h' }
  made : ∀ {m h' made more}, c.holds m → m.heap.Makes h' made more → owned { m with heap := h' } made
  written : ∀ {m} output, c.holds m → c.holds { m with output } ∧ c.grows m { m with output }

section Values

variable {owned : Object → Prop} {v w l r : Value} {flow : Flow}

theorem Value.owned_of_none (plain : v.object? = none) : v.Owned owned := by
  intro o is
  rw [plain] at is
  cases is

theorem Value.owned_of_some {o : Object} (is : v.object? = some o) (own : owned o) : v.Owned owned := by
  intro o' is'
  obtain rfl := Option.some.inj (is.symm.trans is')
  exact own

theorem Flow.owned_of_ne (stays : ∀ v, flow ≠ .returned v) : flow.Owned owned :=
  fun v same => absurd same (stays v)

theorem Value.instance?_some {receiver : Ref .instance} (is : v.instance? = some receiver) : v = .instance receiver := by
  cases v with
  | «instance» other => exact congrArg _ (Option.some.inj is)
  | _ => cases is

theorem Value.array?_some {array : Ref .array} (is : v.array? = some array) : v = .array array := by
  cases v with
  | array other => exact congrArg _ (Option.some.inj is)
  | _ => cases is

/-! ### Operators -/

theorem UnaryOp.apply_object? {op : UnaryOp} (applied : op.apply v = .ok w) : w.object? = none := by
  unfold UnaryOp.apply at applied
  split at applied <;> cases applied <;> rfl

theorem comparison_object? {numbers : Float → Float → Bool} {strings : String → String → Bool}
    (compared : comparison numbers strings l r = .ok w) : w.object? = none := by
  unfold comparison at compared
  split at compared <;> cases compared <;> rfl

theorem arithmetic_object? {f : Float → Float → Except RuntimeError Value}
    (plain : ∀ x y, f x y = .ok w → w.object? = none) (computed : arithmetic f l r = .ok w) : w.object? = none := by
  unfold arithmetic at computed
  split at computed
  · exact plain _ _ computed
  · cases computed

/-- An operator gives its right operand, or else no object. -/
theorem BinaryOp.apply_object? {op : BinaryOp} (applied : op.apply l r = .ok w) : w = r ∨ w.object? = none := by
  unfold BinaryOp.apply at applied
  split at applied
  case h_1 | h_2 | h_3 =>
    cases applied
    exact Or.inl rfl
  case h_4 | h_5 | h_10 | h_11 =>
    cases applied
    exact Or.inr rfl
  case h_6 | h_7 | h_8 | h_9 => exact Or.inr (comparison_object? applied)
  case h_12 => cases applied
  case h_13 | h_14 =>
    refine Or.inr (arithmetic_object? (fun x y computed => ?_) applied)
    cases computed
    rfl
  case h_15 =>
    refine Or.inr (arithmetic_object? (fun x y computed => ?_) applied)
    split at computed <;> cases computed
    rfl

end Values

namespace Contract.Owns

variable {c : Contract} {owned : Machine → Object → Prop} (rules : c.Owns owned)
  {n : Nat} {m m' : Machine} {frame : Ref .frame} {α : Type}
include rules

/-! ### What is reached -/

theorem value_stays {v : Value} (grows : c.grows m m') (own : v.Owned (owned m)) : v.Owned (owned m') :=
  fun o is => rules.stays grows (own o is)

theorem binding (holds : c.holds m) {r : Ref .frame} (own : owned m (.frame r)) {name : String} {v : Value}
    (found : m.heap.binding? r name = some v) : v.Owned (owned m) :=
  fun _ is => rules.follows holds own (fun _ => nofun) (.binding found is)

theorem ancestor (holds : c.holds m) (distance : Nat) {r outer : Ref .frame} (own : owned m (.frame r))
    (found : m.heap.ancestor? r distance = some outer) : owned m (.frame outer) := by
  induction distance generalizing r with
  | zero =>
    obtain rfl := Option.some.inj found
    exact own
  | succ distance ih =>
    obtain ⟨parent, link, found⟩ := Option.bind_eq_some_iff.mp found
    exact ih (rules.follows holds own (fun _ => nofun) (.parent link)) found

theorem target (holds : c.holds m) (distances : Distances) {id : Nat} {target : Ref .frame}
    (own : owned m (.frame frame)) (found : m.heap.target? distances frame id = some target) :
    owned m (.frame target) := by
  unfold Heap.target? at found
  split at found
  · exact rules.ancestor holds _ own found
  · obtain rfl := Option.some.inj found
    exact rules.globals m

/-! ### Changes -/

theorem change {f : Heap → Heap} {target : Object} {more : Object → Prop} (extended : m.heap.Extended (f m.heap) target more)
    (own : owned m target) (refers : ∀ o, more o → owned m o) :
    c.Safe n (fun _ => change f) m fun _ _ => True :=
  Safe.any (Safe.change (fun holds => rules.changes holds extended (Or.inl own) refers) (rules.grows extended))

theorem make {kind : ObjectKind} {f : Heap → Ref kind × Heap} {object : Ref kind → Object} {more : Object → Prop}
    (makes : m.heap.Makes (f m.heap).2 (object (f m.heap).1) more) (refers : ∀ o, more o → owned m o) :
    c.Safe n (fun _ => make f) m fun r m' => owned m' (object r) := by
  intro holds visited
  have kept (holds : c.holds m) : c.holds { m with heap := (f m.heap).2 } :=
    rules.changes holds makes.toExtended (Or.inr makes.fresh) refers
  refine (Safe.make kept (rules.grows makes.toExtended)).imp (fun r m' _ _ new => ?_) holds visited
  obtain ⟨rfl, rfl⟩ := new
  exact rules.made holds makes

theorem addFrame {parent : Ref .frame} (own : owned m (.frame parent)) :
    c.Safe n (fun _ => Run.make (·.addFrame parent)) m fun r m' => owned m' (.frame r) := by
  refine rules.make (m.heap.makes_addFrame parent) fun o is => ?_
  obtain rfl := is
  exact own

theorem addClosure {closure : Closure} (own : owned m (.frame closure.scope)) :
    c.Safe n (fun _ => Run.make (·.addClosure closure)) m fun r m' => owned m' (.closure r) := by
  refine rules.make (m.heap.makes_addClosure closure) fun o is => ?_
  obtain rfl := is
  exact own

theorem addInstance {classRef : Ref .classObject} (own : owned m (.classObject classRef)) :
    c.Safe n (fun _ => Run.make (·.addInstance classRef)) m fun r m' => owned m' (.instance r) := by
  refine rules.make (m.heap.makes_addInstance classRef) fun o is => ?_
  obtain rfl := is
  exact own

theorem addArray {elements : Array Value} (own : ∀ v ∈ elements, v.Owned (owned m)) :
    c.Safe n (fun _ => Run.make (·.addArray elements)) m fun r m' => owned m' (.array r) := by
  refine rules.make (m.heap.makes_addArray elements) fun o is => ?_
  obtain ⟨v, member, is⟩ := is
  exact own v member o is

theorem bind {target : Ref .frame} (own : owned m (.frame target)) (name : String) {value : Value}
    (valued : value.Owned (owned m)) : c.Safe n (fun _ => Run.change (·.bind target name value)) m fun _ _ => True :=
  rules.change (m.heap.extended_bind target name value) own valued

/-! ### Operations -/

omit rules in
theorem ofExcept {line : Nat} {a : Except RuntimeError Value} (own : ∀ v, a = .ok v → v.Owned (owned m)) :
    c.Safe n (fun _ => ofExcept line a) m fun v m' => v.Owned (owned m') := by
  cases a with
  | error error => exact Safe.fault
  | ok v => exact Safe.pure fun _ => own v rfl

theorem readVariable {distances : Distances} (own : owned m (.frame frame)) (use : Use) :
    c.Safe n (fun _ => readVariable distances frame use) m fun v m' => v.Owned (owned m') := by
  refine Safe.reading fun holds => ?_
  refine (Safe.ofOption _).imp fun value m₁ _ _ ⟨same, found⟩ => ?_
  obtain ⟨target, there, bound⟩ := Option.bind_eq_some_iff.mp found
  rw [same]
  exact rules.binding holds (rules.target holds distances own there) bound

theorem assignVariable {distances : Distances} (own : owned m (.frame frame)) (use : Use) {value : Value}
    (valued : value.Owned (owned m)) :
    c.Safe n (fun _ => assignVariable distances frame use value) m fun v m' => v.Owned (owned m') := by
  refine Safe.reading fun holds => Safe.needing fun target found => ?_
  have there := rules.target holds distances own (Option.filter_eq_some_iff.mp found).1
  exact (rules.bind there use.name valued).bind fun _ m₁ _ grows _ => Safe.pure fun _ => rules.value_stays grows valued

theorem bindMethod {method : Closure} (own : owned m (.frame method.scope)) {receiver : Ref .instance}
    (received : owned m (.instance receiver)) :
    c.Safe n (fun _ => bindMethod method receiver) m fun bound m' => owned m' (.frame bound.scope) := by
  refine (rules.addFrame own).bind fun r m₁ _ grows made => ?_
  have received : (Value.instance receiver).Owned (owned m₁) := Value.owned_of_some rfl (rules.stays grows received)
  exact (rules.bind made thisName received).bind fun _ m₂ _ grows _ => Safe.pure fun _ => rules.stays grows made

theorem methodValue {method : Closure} (own : owned m (.frame method.scope)) {receiver : Ref .instance}
    (received : owned m (.instance receiver)) :
    c.Safe n (fun _ => methodValue method receiver) m fun v m' => v.Owned (owned m') := by
  refine (rules.bindMethod own received).bind fun bound m₁ _ _ scope => ?_
  exact (rules.addClosure scope).bind fun r m₂ _ _ made => Safe.pure fun _ => Value.owned_of_some rfl made

theorem readProperty {receiver : Ref .instance} (received : owned m (.instance receiver)) (name : String) (line : Nat) :
    c.Safe n (fun _ => readProperty receiver name line) m fun v m' => v.Owned (owned m') := by
  refine Safe.reading fun holds => ?_
  cases field : (m.heap.instance? receiver).bind (·.fields.get? name) with
  | some value =>
    obtain ⟨i, there, has⟩ := Option.bind_eq_some_iff.mp field
    exact Safe.pure fun _ _ is => rules.follows holds received (fun _ => nofun) (.field there has is)
  | none =>
    refine Safe.reading fun _ => Safe.needing fun method found => ?_
    obtain ⟨i, there, inherits⟩ := Option.bind_eq_some_iff.mp found
    have ownClass := rules.follows holds received (fun _ => nofun) (.classOf there)
    exact rules.methodValue (rules.method holds ownClass inherits) received

theorem readSuper {distances : Distances} (own : owned m (.frame frame)) (id : Nat) (name : String) (line : Nat) :
    c.Safe n (fun _ => readSuper distances frame id name line) m fun v m' => v.Owned (owned m') := by
  have bound (holds : c.holds m) {distance : Nat} {name : String} {v : Value}
      (found : (m.heap.ancestor? frame distance).bind (m.heap.binding? · name) = some v) : v.Owned (owned m) := by
    obtain ⟨outer, there, found⟩ := Option.bind_eq_some_iff.mp found
    exact rules.binding holds (rules.ancestor holds distance own there) found
  unfold Lox.readSuper
  split
  · refine Safe.reading fun holds => ?_
    split
    · next superclass foundSuper =>
      refine Safe.reading fun _ => ?_
      split
      · next receiver foundThis =>
        refine Safe.reading fun _ => Safe.needing fun method found => ?_
        have ownClass : owned m (.classObject superclass) := bound holds foundSuper _ rfl
        have received : owned m (.instance receiver) := bound holds foundThis _ rfl
        exact rules.methodValue (rules.method holds ownClass found) received
      · exact Safe.fault
    · exact Safe.fault
  · exact Safe.fault

omit rules in
theorem locate {sequence : Value} (own : sequence.Owned (owned m)) (index : Value) (line : Nat) :
    c.Safe n (fun _ => locate sequence index line) m fun place m' => m' = m ∧ owned m (.array place.1) := by
  refine Safe.needing fun array is => Safe.reading fun _ => ?_
  refine (Safe.ofExcept _).bind fun place m₁ _ _ same => Safe.pure fun _ => ⟨same, own _ ?_⟩
  rw [Value.array?_some is]
  rfl

theorem readElement {sequence : Value} (own : sequence.Owned (owned m)) (index : Value) (line : Nat) :
    c.Safe n (fun _ => readElement sequence index line) m fun v m' => v.Owned (owned m') := by
  refine (locate own index line).bind fun place m₁ holds _ ⟨same, array⟩ => ?_
  rw [← same] at array
  refine (Safe.read _).imp fun v m₂ _ _ ⟨same, found⟩ => ?_
  rw [same, found]
  cases there : (m₁.heap.elements place.1)[place.2]? with
  | none => exact Value.owned_of_none rfl
  | some value => exact fun o is => rules.follows holds array (fun _ => nofun) (.element (Array.mem_of_getElem? there) is)

theorem assignElement {sequence : Value} (own : sequence.Owned (owned m)) (index : Value) {value : Value}
    (valued : value.Owned (owned m)) (line : Nat) :
    c.Safe n (fun _ => assignElement sequence index value line) m fun v m' => v.Owned (owned m') := by
  refine (locate own index line).bind fun place m₁ _ grows ⟨same, array⟩ => ?_
  have valued := rules.value_stays grows valued
  rw [← same] at array
  refine (rules.change (m₁.heap.extended_setElement place.1 place.2 value) array valued).bind fun _ m₂ _ grows _ => ?_
  exact Safe.pure fun _ => rules.value_stays grows valued

theorem native (f : Native) {arguments : List Value} (given : ∀ v ∈ arguments, v.Owned (owned m)) (line : Nat) :
    c.Safe n (fun _ => f.run arguments line) m fun v m' => v.Owned (owned m') := by
  unfold Native.run
  split
  · exact Safe.reading fun _ => Safe.pure fun _ => Value.owned_of_none rfl
  · next array value _ =>
    have ownArray : owned m (.array array) := given _ List.mem_cons_self _ rfl
    have valued : value.Owned (owned m) := given _ (List.mem_cons_of_mem _ List.mem_cons_self)
    refine (rules.change (m.heap.extended_pushElement array value) ownArray valued).bind fun _ m₁ _ _ _ => ?_
    exact Safe.reading fun _ => Safe.pure fun _ => Value.owned_of_none rfl
  · exact Safe.fault

omit rules in
theorem checkArity (expected found line : Nat) : c.Safe n (fun _ => checkArity expected found line) m fun _ _ => True := by
  unfold Lox.checkArity
  split
  · exact Safe.pure fun _ => trivial
  · exact Safe.fault

theorem bindParams {frame : Ref .frame} (own : owned m (.frame frame)) (params : List String) {arguments : List Value}
    (given : ∀ v ∈ arguments, v.Owned (owned m)) :
    c.Safe n (fun _ => Run.change (bindParams frame params arguments)) m fun _ _ => True := by
  unfold Lox.bindParams
  have all (pairs : List (String × Value)) (m : Machine) (own : owned m (.frame frame))
      (given : ∀ pair ∈ pairs, pair.2.Owned (owned m)) :
      (c.holds m → c.holds { m with heap := pairs.foldl (fun h pair => h.bind frame pair.1 pair.2) m.heap }) ∧
        c.grows m { m with heap := pairs.foldl (fun h pair => h.bind frame pair.1 pair.2) m.heap } := by
    induction pairs generalizing m with
    | nil => exact ⟨id, c.refl m⟩
    | cons pair pairs ih =>
      have extended := m.heap.extended_bind frame pair.1 pair.2
      have grows := rules.grows extended
      have bound := given pair List.mem_cons_self
      have ⟨kept, further⟩ := ih { m with heap := m.heap.bind frame pair.1 pair.2 } (rules.stays grows own)
        fun other member => rules.value_stays grows (given other (List.mem_cons_of_mem _ member))
      exact ⟨fun holds => kept (rules.changes holds extended (Or.inl own) bound), c.trans grows further⟩
  have ⟨kept, grows⟩ := all (params.zip arguments) m own fun pair member => given _ (List.of_mem_zip member).2
  exact Safe.any (Safe.change kept grows)

/-! ### Classes -/

theorem readSuperclass {distances : Distances} (own : owned m (.frame frame)) (line : Nat) (use? : Option Use) :
    c.Safe n (fun _ => readSuperclass distances frame line use?) m fun superclass? m' =>
      ∀ r, superclass? = some r → owned m' (.classObject r) := by
  cases use? with
  | none => exact Safe.pure fun _ r same => nomatch same
  | some use =>
    refine (rules.readVariable own use).bind fun v m₁ _ _ valued => ?_
    cases v with
    | classObject superclass =>
      refine Safe.pure fun _ r same => ?_
      obtain rfl := Option.some.inj same
      exact valued _ rfl
    | _ => exact Safe.fault

theorem methodScope (own : owned m (.frame frame)) {superclass? : Option (Ref .classObject)}
    (ownSuper : ∀ r, superclass? = some r → owned m (.classObject r)) :
    c.Safe n (fun _ => methodScope frame superclass?) m fun scope m' => owned m' (.frame scope) := by
  cases superclass? with
  | none => exact Safe.pure fun _ => own
  | some superclass =>
    refine (rules.addFrame own).bind fun scope m₁ _ grows made => ?_
    have valued : (Value.classObject superclass).Owned (owned m₁) :=
      Value.owned_of_some rfl (rules.stays grows (ownSuper superclass rfl))
    exact (rules.bind made superName valued).bind fun _ m₂ _ grows _ => Safe.pure fun _ => rules.stays grows made

theorem declareClass {distances : Distances} (own : owned m (.frame frame)) (name : String) (superclass? : Option Use)
    (methods : List FunctionDecl) (line : Nat) :
    c.Safe n (fun _ => declareClass distances frame name superclass? methods line) m fun _ _ => True := by
  refine (rules.readSuperclass own line superclass?).bind fun superclass? m₁ _ grows₁ ownSuper => ?_
  have own₁ := rules.stays grows₁ own
  refine (rules.bind own₁ name (Value.owned_of_none rfl)).bind fun _ m₂ _ grows₂ _ => ?_
  have own₂ := rules.stays grows₂ own₁
  have ownSuper₂ (r : Ref .classObject) (is : superclass? = some r) := rules.stays grows₂ (ownSuper r is)
  refine (rules.methodScope own₂ ownSuper₂).bind fun scope m₃ _ grows₃ ownScope => ?_
  have refers (o : Object) (link : ClassObject.Links ⟨name, superclass?, methodTable scope methods⟩ o) :
      owned m₃ o := by
    cases link with
    | superclass is => exact rules.stays grows₃ (ownSuper₂ _ is)
    | method found =>
      obtain ⟨decl, -, -, rfl⟩ := methodTable_get? found
      exact ownScope
  refine (rules.make (m₃.heap.makes_addClass _) refers).bind fun made m₄ _ grows₄ ownMade => ?_
  exact rules.bind (rules.stays grows₄ (rules.stays grows₃ own₂)) name (Value.owned_of_some rfl ownMade)

end Contract.Owns

/-! ### The evaluator -/

/-- An evaluator of some depth that is given owned objects gives owned values. -/
structure KeepsOwned (c : Contract) (owned : Machine → Object → Prop) (n : Nat) : Prop where
  expr : ∀ {m frame e}, owned m (.frame frame) →
    c.Safe n (fun self => self.expr frame e) m fun v m' => v.Owned (owned m')
  stmt : ∀ {m frame s}, owned m (.frame frame) →
    c.Safe n (fun self => self.stmt frame s) m fun flow m' => flow.Owned (owned m')
  invoke : ∀ {m closure arguments}, owned m (.frame closure.scope) → (∀ v ∈ arguments, v.Owned (owned m)) →
    c.Safe n (fun self => self.invoke closure arguments) m fun v m' => v.Owned (owned m')

namespace KeepsOwned

variable {c : Contract} {owned : Machine → Object → Prop} {n : Nat} (rules : c.Owns owned) (ih : KeepsOwned c owned n)
  {m : Machine} {frame : Ref .frame}
include rules ih

theorem each (own : owned m (.frame frame)) (es : List Expr) :
    c.Safe n (fun self => each (self.expr frame) es) m fun vs m' => ∀ v ∈ vs, v.Owned (owned m') := by
  refine Safe.eachGood ?_ es ?_
  · exact fun grows valued => rules.value_stays grows valued
  · exact fun _ _ _ grows => ih.expr (rules.stays grows own)

omit rules in
theorem test (own : owned m (.frame frame)) (e : Expr) :
    c.Safe n (fun self => self.test frame e) m fun _ _ => True :=
  (ih.expr own).bind fun _ _ _ _ _ => Safe.pure fun _ => trivial

omit rules in
theorem exprOrNil (own : owned m (.frame frame)) (e? : Option Expr) :
    c.Safe n (fun self => self.exprOrNil frame e?) m fun v m' => v.Owned (owned m') := by
  cases e? with
  | none => exact Safe.pure fun _ => Value.owned_of_none rfl
  | some e => exact ih.expr own

omit rules in
theorem testOrTrue (own : owned m (.frame frame)) (e? : Option Expr) :
    c.Safe n (fun self => self.testOrTrue frame e?) m fun _ _ => True := by
  cases e? with
  | none => exact Safe.pure fun _ => trivial
  | some e => exact ih.test own e

theorem call {callee : Value} (own : callee.Owned (owned m)) {arguments : List Value}
    (given : ∀ v ∈ arguments, v.Owned (owned m)) (line : Nat) :
    c.Safe n (fun self => call self.invoke callee arguments line) m fun v m' => v.Owned (owned m') := by
  cases callee with
  | function r =>
    refine Safe.reading fun holds => Safe.needing fun closure there => ?_
    have ownScope := rules.follows holds (own _ rfl) (fun _ => nofun) (.scope there)
    refine (Owns.checkArity _ _ _).bind fun _ m₁ _ grows _ => ih.invoke (rules.stays grows ownScope) fun v member => ?_
    exact rules.value_stays grows (given v member)
  | native f =>
    refine (Owns.checkArity _ _ _).bind fun _ m₁ _ grows _ => ?_
    exact rules.native f (fun v member => rules.value_stays grows (given v member)) line
  | classObject r =>
    refine Safe.reading fun holds => ?_
    cases found : m.heap.method? r initName with
    | none =>
      refine (Owns.checkArity _ _ _).bind fun _ m₁ _ grows _ => ?_
      refine (rules.addInstance (rules.stays grows (own _ rfl))).bind fun receiver m₂ _ _ made => ?_
      exact Safe.pure fun _ => Value.owned_of_some rfl made
    | some initializer =>
      have ownScope := rules.method holds (own _ rfl) found
      refine (Owns.checkArity _ _ _).bind fun _ m₁ _ grows₁ _ => ?_
      refine (rules.addInstance (rules.stays grows₁ (own _ rfl))).bind fun receiver m₂ _ grows₂ made => ?_
      have grows := c.trans grows₁ grows₂
      refine (rules.bindMethod (rules.stays grows ownScope) made).bind fun bound m₃ _ grows₃ ownBound => ?_
      have given (v : Value) (member : v ∈ arguments) := rules.value_stays (c.trans grows grows₃) (given v member)
      refine (ih.invoke ownBound given).bind fun _ m₄ _ grows₄ _ => Safe.pure fun _ => ?_
      exact Value.owned_of_some rfl (rules.stays (c.trans grows₃ grows₄) made)
  | _ => exact Safe.fault

theorem evalExpr (own : owned m (.frame frame)) (e : Expr) :
    c.Safe n (fun self => self.evalExpr c.distances frame e) m fun v m' => v.Owned (owned m') := by
  cases e with
  | literal value => exact Safe.pure fun _ => Value.owned_of_none (by cases value <;> rfl)
  | group inner => exact ih.expr own
  | unary op operand line =>
    refine (ih.expr own).bind fun v m₁ _ _ _ => Owns.ofExcept fun w applied => ?_
    exact Value.owned_of_none (UnaryOp.apply_object? applied)
  | binary op left right line =>
    refine (ih.expr own).bind fun l m₁ _ grows ownLeft => Safe.ite (fun _ => Safe.pure fun _ => ownLeft) fun _ => ?_
    refine (ih.expr (rules.stays grows own)).bind fun r m₂ _ _ ownRight => Owns.ofExcept fun w applied => ?_
    rcases BinaryOp.apply_object? applied with rfl | plain
    · exact ownRight
    · exact Value.owned_of_none plain
  | conditional test consequent alternative =>
    refine (ih.test own test).bind fun _ m₁ _ grows _ => ?_
    have own := rules.stays grows own
    exact Safe.ite (fun _ => ih.expr own) fun _ => ih.expr own
  | var use => exact rules.readVariable own use
  | assign target value =>
    refine (ih.expr own).bind fun v m₁ _ grows valued => ?_
    exact rules.assignVariable (rules.stays grows own) target valued
  | thisRef id line => exact rules.readVariable own _
  | superRef id method line => exact rules.readSuper own id method line
  | call callee arguments line =>
    refine (ih.expr own).bind fun f m₁ _ grows ownCallee => ?_
    refine (ih.each rules (rules.stays grows own) arguments).bind fun vs m₂ _ grows given => ?_
    exact ih.call rules (rules.value_stays grows ownCallee) given line
  | field object name line =>
    refine (ih.expr own).bind fun v m₁ _ _ valued => Safe.needing fun receiver is => ?_
    obtain rfl := Value.instance?_some is
    exact rules.readProperty (valued _ rfl) name line
  | setField object name value line =>
    refine (ih.expr own).bind fun v m₁ _ grows ownObject => Safe.needing fun receiver is => ?_
    obtain rfl := Value.instance?_some is
    refine (ih.expr (rules.stays grows own)).bind fun w m₂ _ grows valued => ?_
    have received := rules.stays grows (ownObject _ rfl)
    refine (rules.change (m₂.heap.extended_setField receiver name w) received valued).bind fun _ m₃ _ grows _ => ?_
    exact Safe.pure fun _ => rules.value_stays grows valued
  | array elements =>
    refine (ih.each rules own elements).bind fun vs m₁ _ _ given => ?_
    refine (rules.addArray fun v member => given v (List.mem_toArray.mp member)).bind fun r m₂ _ _ made => ?_
    exact Safe.pure fun _ => Value.owned_of_some rfl made
  | element sequence index line =>
    refine (ih.expr own).bind fun s m₁ _ grows ownSequence => ?_
    refine (ih.expr (rules.stays grows own)).bind fun i m₂ _ grows _ => ?_
    exact rules.readElement (rules.value_stays grows ownSequence) i line
  | setElement sequence index value line =>
    refine (ih.expr own).bind fun s m₁ _ grows₁ ownSequence => ?_
    have own := rules.stays grows₁ own
    refine (ih.expr own).bind fun i m₂ _ grows₂ _ => (ih.expr (rules.stays grows₂ own)).bind fun v m₃ _ grows₃ valued => ?_
    exact rules.assignElement (rules.value_stays (c.trans grows₂ grows₃) ownSequence) i valued line

theorem inOrder (own : owned m (.frame frame)) (ss : List Stmt) :
    c.Safe n (fun self => inOrder (self.stmt frame) ss) m fun flow m' => flow.Owned (owned m') := by
  induction ss generalizing m with
  | nil => exact Safe.pure fun _ => Flow.owned_of_ne (by simp)
  | cons s ss rest =>
    refine (ih.stmt own).bind fun flow m₁ _ grows returned => ?_
    cases flow with
    | normal => exact rest (rules.stays grows own)
    | _ => exact Safe.pure fun _ => returned

omit rules in
theorem execInitial (own : owned m (.frame frame)) (initial? : Option Stmt) :
    c.Safe n (fun self => self.execInitial frame initial?) m fun _ _ => True := by
  cases initial? with
  | none => exact Safe.pure fun _ => trivial
  | some initial => exact (ih.stmt own).bind fun _ _ _ _ _ => Safe.pure fun _ => trivial

theorem execRound (own : owned m (.frame frame)) (body : Stmt) (step? : Option Expr) :
    c.Safe n (fun self => self.execRound frame body step?) m fun flow m' => flow.Owned (owned m') := by
  refine (ih.stmt own).bind fun flow m₁ _ grows returned => ?_
  have step : c.Safe n (fun self => do let _ ← self.exprOrNil frame step?; return Flow.normal) m₁
      fun flow m' => flow.Owned (owned m') :=
    (ih.exprOrNil (rules.stays grows own) step?).bind fun _ _ _ _ _ => Safe.pure fun _ => Flow.owned_of_ne (by simp)
  cases flow with
  | normal => exact step
  | continued => exact step
  | _ => exact Safe.pure fun _ => returned

theorem print (own : owned m (.frame frame)) (items : List Expr) (line k : Nat) :
    c.Safe n (fun self => self.execStmt c.distances k frame (.print items line)) m
      fun flow m' => flow.Owned (owned m') := by
  have texts : c.Safe n (fun self => Run.each (self.textOf frame) items) m fun _ _ => True :=
    Safe.each items fun e _ m₁ grows => (ih.expr (rules.stays grows own)).bind fun _ _ _ _ _ => (Safe.read _).any
  refine texts.bind fun texts m₁ _ _ _ => (Safe.printLine fun _ => rules.written _).bind fun _ m₂ _ _ _ => ?_
  exact Safe.pure fun _ => Flow.owned_of_ne (by simp)

theorem execStmt (own : owned m (.frame frame)) (s : Stmt) (k : Nat) :
    c.Safe n (fun self => self.execStmt c.distances k frame s) m fun flow m' => flow.Owned (owned m') := by
  have plain {flow : Flow} (stays : ∀ v, flow ≠ .returned v) (m : Machine) :
      c.Safe n (fun _ => pure flow) m fun flow m' => flow.Owned (owned m') :=
    Safe.pure fun _ => Flow.owned_of_ne stays
  have normal (m : Machine) : c.Safe n (fun _ => pure Flow.normal) m fun flow m' => flow.Owned (owned m') :=
    plain (by simp) m
  cases s with
  | expr value => exact (ih.expr own).bind fun _ m₁ _ _ _ => normal m₁
  | print items line => exact ih.print rules own items line k
  | varDecl name initial? line =>
    refine (ih.exprOrNil own initial?).bind fun v m₁ _ grows valued => ?_
    exact (rules.bind (rules.stays grows own) name valued).bind fun _ m₂ _ _ _ => normal m₂
  | block body => exact (rules.addFrame own).bind fun inner m₁ _ _ made => ih.inOrder rules made body
  | ifElse test consequent alternative? =>
    refine (ih.test own test).bind fun _ m₁ _ grows _ => ?_
    have own := rules.stays grows own
    refine Safe.ite (fun _ => ih.stmt own) fun _ => ?_
    cases alternative? with
    | none => exact normal m₁
    | some alternative => exact ih.stmt own
  | whileLoop test body =>
    exact Safe.roundsGood (fun _ => Flow.owned_of_ne (by simp)) k (fun _ grows => ih.test (rules.stays grows own) test)
      fun _ grows => ih.stmt (rules.stays grows own)
  | forLoop initial? test? step? body =>
    refine (rules.addFrame own).bind fun inner m₁ _ _ made => ?_
    refine (ih.execInitial made initial?).bind fun _ m₂ _ grows _ => ?_
    have own := rules.stays grows made
    exact Safe.roundsGood (fun _ => Flow.owned_of_ne (by simp)) k
      (fun _ grows => ih.testOrTrue (rules.stays grows own) test?)
      fun _ grows => ih.execRound rules (rules.stays grows own) body step?
  | breakLoop => exact plain (by simp) m
  | continueLoop => exact plain (by simp) m
  | funDecl decl =>
    refine Safe.bind (rules.addClosure own) fun r m₁ _ grows made => ?_
    have valued : (Value.function r).Owned (owned m₁) := Value.owned_of_some rfl made
    exact (rules.bind (rules.stays grows own) decl.name valued).bind fun _ m₂ _ _ _ => normal m₂
  | returnValue value? line =>
    refine (ih.exprOrNil own value?).bind fun v m₁ _ _ valued => Safe.pure fun _ w same => ?_
    obtain rfl := Flow.returned.inj same
    exact valued
  | classDecl name superclass? methods line =>
    exact (rules.declareClass own name superclass? methods line).bind fun _ m₁ _ _ _ => normal m₁

theorem invokeClosure {closure : Closure} (own : owned m (.frame closure.scope)) {arguments : List Value}
    (given : ∀ v ∈ arguments, v.Owned (owned m)) :
    c.Safe n (fun self => self.invokeClosure closure arguments) m fun v m' => v.Owned (owned m') := by
  refine (rules.addFrame own).bind fun frame m₁ _ grows₁ made => ?_
  refine (rules.bindParams made closure.decl.params fun v member => rules.value_stays grows₁ (given v member)).bind
    fun _ m₂ _ grows₂ _ => ?_
  refine (ih.inOrder rules (rules.stays grows₂ made) closure.decl.body).bind fun flow m₃ _ grows₃ returned => ?_
  have own := rules.stays (c.trans grows₁ (c.trans grows₂ grows₃)) own
  refine Safe.ite (fun _ => ?_) fun _ => ?_
  · refine Safe.reading fun holds => Safe.pure fun _ => ?_
    cases this : m₃.heap.binding? closure.scope thisName with
    | none => exact Value.owned_of_none rfl
    | some value => exact rules.binding holds own this
  · cases flow with
    | returned value => exact Safe.pure fun _ => returned value rfl
    | _ => exact Safe.pure fun _ => Value.owned_of_none rfl

end KeepsOwned

/-- Whatever is run, to whatever depth, gives owned values. -/
theorem keeps_owned {c : Contract} {owned : Machine → Object → Prop} (rules : c.Owns owned) (n : Nat) :
    KeepsOwned c owned n := by
  induction n with
  | zero => exact ⟨fun _ => Safe.starved rfl, fun _ => Safe.starved rfl, fun _ _ => Safe.starved rfl⟩
  | succ n ih =>
    constructor
    · intro m frame e own
      refine Safe.enter (.expr frame e) (fun self => self.evalExpr c.distances frame e) rfl (fun _ _ => rfl)
        fun visited => ⟨rules.expects ?_ visited, ih.evalExpr rules own e⟩
      rintro o rfl
      exact own
    · intro m frame s own
      refine Safe.enter (.stmt frame s) (fun self => self.execStmt c.distances n frame s) rfl (fun _ _ => rfl)
        fun visited => ⟨rules.expects ?_ visited, ih.execStmt rules own s n⟩
      rintro o rfl
      exact own
    · intro m closure arguments own given
      refine Safe.enter (.invoke closure arguments) (fun self => self.invokeClosure closure arguments) rfl
        (fun _ _ => rfl) fun visited => ⟨rules.expects ?_ visited, ih.invokeClosure rules own given⟩
      rintro o (rfl | ⟨v, member, is⟩)
      · exact own
      · exact given v member o is

/-- So does a program, from the global frame. -/
theorem owned_interpret {c : Contract} {owned : Machine → Object → Prop} (rules : c.Owns owned)
    (program : List Stmt) (n : Nat) (m : Machine) :
    c.Safe n (fun self => interpret self program) m fun _ _ => True := by
  induction program generalizing m with
  | nil => exact Safe.pure fun _ => trivial
  | cons s ss rest => exact ((keeps_owned rules n).stmt (rules.globals m)).bind fun _ m₁ _ _ _ => rest m₁

end Lox
