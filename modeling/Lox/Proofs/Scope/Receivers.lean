import Lox.Proofs.Scope.Places

/-!
Where `this` and `super` stand. In a program without errors each `this` is within a method of a class and
each `super` within a method of a class with a superclass; between it and the scopes that bind them there are
only scopes that bind neither.
-/

namespace Lox

open Resolution

variable {r r₁ r' : Resolution} {chain : List Place}

/-! ### Scopes of classes -/

/-- Some scopes around a place, where the innermost class is of some kind. Each scope that binds `super` is
right around the one that binds `this` for the same class. -/
inductive Nested : ClassKind → List Place → Prop
  | top : Nested .none []
  | plain {kind scope names chain} : ScopeSite.Plain scope → (∀ name ∈ names, name ≠ thisName ∧ name ≠ superName) →
    Nested kind chain → Nested kind (⟨scope, names⟩ :: chain)
  | base {outer name methods line chain} : Nested outer chain →
    Nested .base (⟨.receiver (.classDecl name none methods line), [thisName]⟩ :: chain)
  | derived {outer name use methods line chain} : Nested outer chain →
    Nested .derived (⟨.receiver (.classDecl name (some use) methods line), [thisName]⟩ ::
      ⟨.superclass (.classDecl name (some use) methods line), [superName]⟩ :: chain)

/-- The scopes between a place and the innermost scope that binds `this`. -/
structure Between (inner : List Place) : Prop where
  plain : ∀ p ∈ inner, p.scope.Plain
  proper : ∀ p ∈ inner, ∀ name ∈ p.names, name ≠ thisName ∧ name ≠ superName

theorem Between.nil : Between [] :=
  ⟨by simp, by simp⟩

theorem Between.cons {scope : ScopeSite} {names : List String} {inner : List Place} (between : Between inner)
    (plain : scope.Plain) (proper : ∀ name ∈ names, name ≠ thisName ∧ name ≠ superName) :
    Between (⟨scope, names⟩ :: inner) :=
  ⟨List.forall_mem_cons.mpr ⟨plain, between.plain⟩, List.forall_mem_cons.mpr ⟨proper, between.proper⟩⟩

theorem Nested.receiver {kind : ClassKind} (nested : Nested kind chain) (inside : kind ≠ .none) :
    ∃ inner name superclass? methods line outer, Between inner ∧
      chain = inner ++ ⟨.receiver (.classDecl name superclass? methods line), [thisName]⟩ :: outer := by
  induction nested with
  | top => exact absurd rfl inside
  | @plain kind scope names chain plain proper _ ih =>
    obtain ⟨inner, name, superclass?, methods, line, outer, between, rfl⟩ := ih inside
    exact ⟨⟨scope, names⟩ :: inner, name, superclass?, methods, line, outer, between.cons plain proper, rfl⟩
  | base => exact ⟨[], _, none, _, _, _, .nil, rfl⟩
  | derived => exact ⟨[], _, some _, _, _, _, .nil, rfl⟩

theorem Nested.superclass {kind : ClassKind} (nested : Nested kind chain) (inside : kind = .derived) :
    ∃ inner name use methods line outer, Between inner ∧
      chain = inner ++ ⟨.receiver (.classDecl name (some use) methods line), [thisName]⟩ ::
        ⟨.superclass (.classDecl name (some use) methods line), [superName]⟩ :: outer := by
  induction nested with
  | top => cases inside
  | @plain kind scope names chain plain proper _ ih =>
    obtain ⟨inner, name, use, methods, line, outer, between, rfl⟩ := ih inside
    exact ⟨⟨scope, names⟩ :: inner, name, use, methods, line, outer, between.cons plain proper, rfl⟩
  | base => cases inside
  | derived => exact ⟨[], _, _, _, _, _, .nil, rfl⟩

theorem Nested.declareName {kind : ClassKind} (nested : Nested kind chain) {name : String}
    (proper : name ≠ thisName ∧ name ≠ superName) (plain : ∀ scope ∈ chain.head?.map (·.scope), scope.Plain) :
    Nested kind (declareName name chain) := by
  cases nested with
  | top => exact .top
  | plain open_ names nested => exact .plain open_ (List.forall_mem_cons.mpr ⟨proper, names⟩) nested
  | base => exact (plain _ rfl).elim
  | derived => exact (plain _ rfl).elim

/-! ### Expressions -/

/-- A reference may stand where the innermost class is of some kind. -/
def Reference.Allowed (kind : ClassKind) (ref : Reference) : Prop :=
  (ref.name = thisName → kind ≠ .none) ∧ (ref.name = superName → kind = .derived)

theorem allowed_proper {kind : ClassKind} {ref : Reference} (proper : ref.name ≠ thisName ∧ ref.name ≠ superName) :
    ref.Allowed kind :=
  ⟨fun same => absurd same proper.1, fun same => absurd same proper.2⟩

/-- The walk over a phrase lets its references pass only where they may stand. -/
structure Admits (r r' : Resolution) (references : List Reference) : Prop where
  kept : r.diagnostics <+: r'.diagnostics
  kind : r'.classKind = r.classKind
  allowed : r'.diagnostics = [] → ∀ ref ∈ references, ref.Allowed r.classKind

namespace Admits

variable {as bs : List Reference}

theorem refl (r : Resolution) : Admits r r [] :=
  ⟨List.prefix_refl _, rfl, fun _ => List.forall_mem_nil _⟩

theorem append (first : Admits r r₁ as) (second : Admits r₁ r' bs) : Admits r r' (as ++ bs) := by
  refine ⟨first.kept.trans second.kept, second.kind.trans first.kind, fun clean ref member => ?_⟩
  rcases List.mem_append.mp member with member | member
  · exact first.allowed (List.prefix_nil.mp (clean ▸ second.kept)) ref member
  · exact first.kind ▸ second.allowed clean ref member

theorem perm (admits : Admits r r' as) (same : as.Perm bs) : Admits r r' bs :=
  ⟨admits.kept, admits.kind, fun clean ref member => admits.allowed clean ref (same.mem_iff.mpr member)⟩

end Admits

theorem admits_refer (ref : Reference) (allowed : ref.Allowed r.classKind) :
    Admits r (r.refer ref.id ref.name) [ref] := by
  have alone (other : Reference) (member : other ∈ [ref]) : other.Allowed r.classKind :=
    List.mem_singleton.mp member ▸ allowed
  unfold Resolution.refer
  split
  · exact ⟨List.prefix_refl _, rfl, fun _ => alone⟩
  · exact ⟨List.prefix_refl _, rfl, fun _ => alone⟩

theorem admits_report (line : Nat) (error : StaticError) (references : List Reference) :
    Admits r (r.report line error) references := by
  refine ⟨List.prefix_append _ _, rfl, fun clean => ?_⟩
  simp [Resolution.report] at clean

theorem admits_read (use : Use) (proper : use.name ≠ thisName ∧ use.name ≠ superName) :
    Admits r (r.read use) [⟨use.id, use.name, false⟩] := by
  unfold Resolution.read
  split
  · exact (admits_report use.line (.ownInitializer use.name) []).append
      (admits_refer ⟨use.id, use.name, false⟩ (allowed_proper proper))
  · exact admits_refer ⟨use.id, use.name, false⟩ (allowed_proper proper)

theorem lexical_cons_unary (op : UnaryOp) {ts : List Token} : Lexical (op.token :: ts) ↔ Lexical ts :=
  lexical_cons (by cases op <;> simp [UnaryOp.token])

theorem lexical_cons_binary (op : BinaryOp) {ts : List Token} : Lexical (op.token :: ts) ↔ Lexical ts :=
  lexical_cons (by cases op <;> simp [BinaryOp.token])

theorem lexical_items {es : List Expr} (lexical : Lexical (Expr.itemTokens es)) : ∀ e ∈ es, Lexical e.tokens := by
  have more (es : List Expr) (lexical : Lexical (Expr.moreTokens es)) : ∀ e ∈ es, Lexical e.tokens := by
    induction es with
    | nil => exact List.forall_mem_nil _
    | cons e es ih =>
      simp [Expr.moreTokens] at lexical
      exact List.forall_mem_cons.mpr ⟨lexical.1, ih lexical.2⟩
  cases es with
  | nil => exact List.forall_mem_nil _
  | cons e es =>
    simp [Expr.itemTokens] at lexical
    exact List.forall_mem_cons.mpr ⟨lexical.1, more es lexical.2⟩

theorem lexical_opt {e? : Option Expr} (lexical : Lexical (Expr.optTokens e?)) :
    ∀ e ∈ e?.toList, Lexical e.tokens := by
  cases e? with
  | none => exact List.forall_mem_nil _
  | some e => simpa [Expr.optTokens] using lexical

mutual

theorem Expr.admits : ∀ (e : Expr) (r : Resolution), Lexical e.tokens → Admits r (e.resolve r) e.references
  | .literal _, r, _ => .refl r
  | .group inner, r, lexical => inner.admits r (by simpa [Expr.tokens] using lexical)
  | .unary op operand _, r, lexical => operand.admits r ((lexical_cons_unary op).mp lexical)
  | .binary op left right _, r, lexical => by
    obtain ⟨first, second⟩ := lexical_append.mp lexical
    exact (left.admits r first).append (right.admits _ ((lexical_cons_binary op).mp second))
  | .conditional test consequent alternative, r, lexical => by
    simp [Expr.tokens] at lexical
    exact (test.admits r lexical.1).append
      ((consequent.admits _ lexical.2.1).append (alternative.admits _ lexical.2.2))
  | .var use, r, lexical => admits_read use (by simpa [Expr.tokens] using lexical)
  | .assign target value, r, lexical => by
    simp [Expr.tokens] at lexical
    exact ((value.admits r lexical.2).append
      (admits_refer ⟨target.id, target.name, true⟩ (allowed_proper lexical.1))).perm List.perm_append_comm
  | .thisRef id line, r, _ => by
    unfold Expr.resolve
    split
    · exact admits_report _ _ _
    · next inside => exact admits_refer ⟨id, thisName, false⟩ ⟨fun _ => inside, by simp [thisName, superName]⟩
  | .superRef id _ line, r, _ => by
    unfold Expr.resolve
    split
    · next inside => exact admits_refer ⟨id, superName, false⟩ ⟨by simp [thisName, superName], fun _ => inside⟩
    · exact admits_report _ _ _
  | .call callee arguments _, r, lexical => by
    simp [Expr.tokens] at lexical
    exact (callee.admits r lexical.1).append (Expr.admitsAll arguments _ (lexical_items lexical.2))
  | .field object _ _, r, lexical => by
    simp [Expr.tokens] at lexical
    exact object.admits r lexical.1
  | .setField object _ value _, r, lexical => by
    simp [Expr.tokens] at lexical
    exact ((value.admits r lexical.2.2).append (object.admits _ lexical.1)).perm List.perm_append_comm
  | .array elements, r, lexical => by
    simp [Expr.tokens] at lexical
    exact Expr.admitsAll elements r (lexical_items lexical)
  | .element sequence index _, r, lexical => by
    simp [Expr.tokens] at lexical
    exact (sequence.admits r lexical.1).append (index.admits _ lexical.2)
  | .setElement sequence index value _, r, lexical => by
    simp [Expr.tokens] at lexical
    have admits := (value.admits r lexical.2.2).append ((sequence.admits _ lexical.1).append (index.admits _ lexical.2.1))
    refine admits.perm (List.perm_append_comm.trans ?_)
    rw [List.append_assoc]
    exact .refl _

theorem Expr.admitsAll : ∀ (es : List Expr) (r : Resolution), (∀ e ∈ es, Lexical e.tokens) →
    Admits r (Expr.resolveAll es r) (Expr.referencesAll es)
  | [], r, _ => .refl r
  | e :: es, r, lexical =>
    (e.admits r (lexical e List.mem_cons_self)).append
      (Expr.admitsAll es _ fun other member => lexical other (List.mem_cons_of_mem _ member))

end

theorem Expr.admitsOpt {e? : Option Expr} (lexical : Lexical (Expr.optTokens e?)) (r : Resolution) :
    Admits r (Expr.resolveOpt e? r) (Expr.referencesOpt e?) :=
  Expr.admitsAll _ r (lexical_opt lexical)

/-! ### Statements -/

/-- A reference stands where it may. -/
def Site.Housed (site : Site) : Prop :=
  ∃ kind, Nested kind site.chain ∧ site.reference.Allowed kind

/-- The walk from one state to another one lets some sites pass only if they are where they may be. -/
structure Houses (r r' : Resolution) (sites : List Site) : Prop where
  kept : r.diagnostics <+: r'.diagnostics
  kind : r'.classKind = r.classKind
  housed : r'.diagnostics = [] → ∀ site ∈ sites, site.Housed

namespace Houses

variable {as bs : List Site}

theorem refl (r : Resolution) : Houses r r [] :=
  ⟨List.prefix_refl _, rfl, fun _ => List.forall_mem_nil _⟩

theorem append (first : Houses r r₁ as) (second : Houses r₁ r' bs) : Houses r r' (as ++ bs) := by
  refine ⟨first.kept.trans second.kept, second.kind.trans first.kind, fun clean site member => ?_⟩
  rcases List.mem_append.mp member with member | member
  · exact first.housed (List.prefix_nil.mp (clean ▸ second.kept)) site member
  · exact second.housed clean site member

end Houses

theorem Admits.houses {references : List Reference} (admits : Admits r r' references)
    (nested : Nested r.classKind chain) (pending? : Option String) :
    Houses r r' (sitesIn chain pending? references) := by
  refine ⟨admits.kept, admits.kind, fun clean site member => ?_⟩
  obtain ⟨ref, inside, rfl⟩ := List.mem_map.mp member
  exact ⟨r.classKind, nested, admits.allowed clean ref inside⟩

theorem setName_kind (r : Resolution) (name : String) (known : Bool) :
    (r.setName name known).classKind = r.classKind := by
  unfold Resolution.setName
  split <;> rfl

theorem declare_kind (r : Resolution) (name : String) (line : Nat) : (r.declare name line).classKind = r.classKind := by
  rw [← setName_kind r name false]
  unfold Resolution.declare
  simp only
  split <;> rfl

theorem houses_declare (r : Resolution) (name : String) (line : Nat) : Houses r (r.declare name line) [] :=
  ⟨declare_keeps r name line, declare_kind r name line, fun _ => List.forall_mem_nil _⟩

theorem houses_define (r : Resolution) (name : String) : Houses r (r.define name) [] := by
  have same := define_diagnostics r name
  exact ⟨same ▸ List.prefix_refl _, setName_kind r name true, fun _ => List.forall_mem_nil _⟩

theorem houses_declared (r : Resolution) (name : String) (line : Nat) :
    Houses r ((r.declare name line).define name) [] :=
  (houses_declare r name line).append (houses_define _ name)

theorem houses_params (params : List String) (line : Nat) (r : Resolution) :
    Houses r (declareParams params line r) [] := by
  induction params generalizing r with
  | nil => exact .refl r
  | cons first params ih => exact (houses_declared r first line).append (ih _)

theorem admits_return {value? : Option Expr} (lexical : Lexical (Expr.optTokens value?)) (line : Nat) (r : Resolution) :
    Admits r (resolveReturn value? line r) (Expr.referencesOpt value?) := by
  cases value? with
  | none => exact .refl r
  | some value =>
    rw [Expr.referencesOpt_some]
    have lexical : Lexical value.tokens := by simpa [Expr.optTokens] using lexical
    unfold resolveReturn
    simp only
    split
    · exact (admits_report line .returnFromInitializer []).append (value.admits _ lexical)
    · exact value.admits r lexical

/-- Whether the innermost of some scopes, if there is one, may be around a statement. -/
def Open (chain : List Place) : Prop :=
  ∀ scope ∈ chain.head?.map (·.scope), scope.Plain

theorem open_stmt (s : Stmt) (names : List String) (chain : List Place) : Open (⟨.stmt s, names⟩ :: chain) := by
  rintro scope ⟨⟩
  trivial

theorem open_function (decl : FunctionDecl) (names : List String) (chain : List Place) :
    Open (⟨.function decl, names⟩ :: chain) := by
  rintro scope ⟨⟩
  trivial

theorem Stmt.after_open {s : Stmt} (open_ : Open chain) : Open (s.after chain) := by
  unfold Open
  rw [Stmt.after_head]
  exact open_

theorem lexical_varDecl {name : String} {initial? : Option Expr} {line : Nat}
    (lexical : Lexical (Stmt.varDecl name initial? line).tokens) :
    (name ≠ thisName ∧ name ≠ superName) ∧ Lexical (Expr.optTokens initial?) := by
  cases initial? with
  | none => simpa [Stmt.tokens, Expr.optTokens] using lexical
  | some initial =>
    simp [Stmt.tokens] at lexical
    exact ⟨lexical.1, by simpa [Expr.optTokens] using lexical.2⟩

theorem Stmt.after_nested {s : Stmt} {kind : ClassKind} (nested : Nested kind chain) (open_ : Open chain)
    (lexical : Lexical s.tokens) : Nested kind (s.after chain) := by
  cases s with
  | varDecl name initial? line => exact nested.declareName (lexical_varDecl lexical).1 open_
  | funDecl decl =>
    obtain ⟨name, params, body, line⟩ := decl
    simp [Stmt.tokens, FunctionDecl.tokens] at lexical
    exact nested.declareName lexical.1 open_
  | classDecl name superclass? methods line =>
    simp [Stmt.tokens] at lexical
    exact nested.declareName lexical.1 open_
  | _ => exact nested

/-! ### Classes -/

/-- The kind of a class by whether it has a superclass. -/
def superKind : Option Use → ClassKind
  | none => .base
  | some _ => .derived

theorem read_kind (r : Resolution) (use : Use) : (r.read use).classKind = r.classKind := by
  unfold Resolution.read Resolution.refer
  split <;> split <;> rfl

theorem enterClass_kind (name : String) (superclass? : Option Use) (line : Nat) (r : Resolution) :
    (enterClass name superclass? line r).classKind = superKind superclass? := by
  unfold enterClass
  cases superclass? with
  | none => exact (setName_kind _ _ _).trans ((houses_declared { r with classKind := .base } name line).kind)
  | some use => exact (setName_kind _ _ _).trans ((setName_kind _ _ _).trans (read_kind _ _))

theorem leaveClass_diagnostics (superclass? : Option Use) (outer : ClassKind) (r : Resolution) :
    (leaveClass superclass? outer r).diagnostics = r.diagnostics := by
  cases superclass? <;> rfl

theorem nested_bound {kind : ClassKind} {name : String} {superclass? : Option Use} {methods : List FunctionDecl}
    {line : Nat} (nested : Nested kind (declareName name chain)) :
    Nested (superKind superclass?) (boundChain (.classDecl name superclass? methods line) name superclass? chain) := by
  cases superclass? with
  | none => exact .base nested
  | some use => exact .derived nested

mutual

theorem Stmt.houses : ∀ (s : Stmt) (r : Resolution) (chain : List Place), Lexical s.tokens → Open chain →
    Nested r.classKind chain → Houses r (s.resolve r) (s.sites chain)
  | .expr value, r, chain, lexical, _, nested => by
    simp [Stmt.tokens] at lexical
    exact (value.admits r lexical).houses nested none
  | .print items _, r, chain, lexical, _, nested => by
    simp [Stmt.tokens] at lexical
    exact (Expr.admitsAll items r (lexical_items lexical)).houses nested none
  | .varDecl name initial? line, r, chain, lexical, _, nested => by
    have declared := houses_declare r name line
    have admits := Expr.admitsOpt (lexical_varDecl lexical).2 (r.declare name line)
    have all := declared.append ((admits.houses (declared.kind ▸ nested) (pendingName name chain)).append
      (houses_define _ name))
    rwa [List.nil_append, List.append_nil] at all
  | .block body, r, chain, lexical, _, nested => by
    simp [Stmt.tokens] at lexical
    have inside := Stmt.housesAll body r.openScope (⟨.stmt (.block body), []⟩ :: chain) lexical
      (open_stmt _ _ _) (.plain trivial (by simp) nested)
    exact ⟨inside.kept, inside.kind, inside.housed⟩
  | .ifElse test consequent none, r, chain, lexical, open_, nested => by
    simp [Stmt.tokens] at lexical
    have tested := test.admits r lexical.1
    exact (tested.houses nested none).append (consequent.houses _ chain lexical.2 open_ (tested.kind ▸ nested))
  | .ifElse test consequent (some alternative), r, chain, lexical, open_, nested => by
    simp [Stmt.tokens] at lexical
    have tested := test.admits r lexical.1
    have first := consequent.houses _ chain lexical.2.1 open_ (tested.kind ▸ nested)
    have second := alternative.houses _ chain lexical.2.2 open_ (first.kind ▸ tested.kind ▸ nested)
    exact (tested.houses nested none).append (first.append second)
  | .whileLoop test body, r, chain, lexical, open_, nested => by
    simp [Stmt.tokens] at lexical
    have tested := test.admits r lexical.1
    exact (tested.houses nested none).append (body.houses _ chain lexical.2 open_ (tested.kind ▸ nested))
  | .forLoop none test? step? body, r, chain, lexical, _, nested => by
    simp [Stmt.tokens] at lexical
    have inner : Nested r.openScope.classKind (⟨.stmt (.forLoop none test? step? body), []⟩ :: chain) :=
      .plain trivial (by simp) nested
    have clauses := (Expr.admitsOpt lexical.1 r.openScope).append (Expr.admitsOpt lexical.2.1 _)
    have round := body.houses _ _ lexical.2.2 (open_stmt _ _ _) (clauses.kind ▸ inner)
    have all := (clauses.houses inner none).append round
    exact ⟨all.kept, all.kind, all.housed⟩
  | .forLoop (some initial) test? step? body, r, chain, lexical, _, nested => by
    simp [Stmt.tokens] at lexical
    have outer : Nested r.openScope.classKind (⟨.stmt (.forLoop (some initial) test? step? body), []⟩ :: chain) :=
      .plain trivial (by simp) nested
    have first := initial.houses _ _ lexical.1 (open_stmt _ _ _) outer
    have inner := Stmt.after_nested outer (open_stmt _ _ _) lexical.1
    have clauses := (Expr.admitsOpt lexical.2.1 (initial.resolve r.openScope)).append (Expr.admitsOpt lexical.2.2.1 _)
    have round := body.houses _ _ lexical.2.2.2 (Stmt.after_open (s := initial) (open_stmt _ _ _))
      (clauses.kind ▸ first.kind ▸ inner)
    have all := first.append ((clauses.houses (first.kind ▸ inner) none).append round)
    exact ⟨all.kept, all.kind, all.housed⟩
  | .breakLoop, r, _, _, _, _ => .refl r
  | .continueLoop, r, _, _, _, _ => .refl r
  | .funDecl decl, r, chain, lexical, open_, nested => by
    have inner := Stmt.after_nested (s := .funDecl decl) nested open_ lexical
    simp [Stmt.tokens] at lexical
    have declared := houses_declared r decl.name decl.line
    exact declared.append (decl.houses .function _ _ lexical (declared.kind ▸ inner))
  | .returnValue value? line, r, chain, lexical, _, nested => by
    simp [Stmt.tokens] at lexical
    exact (admits_return lexical line r).houses nested none
  | .classDecl name superclass? methods line, r, chain, lexical, open_, nested => by
    let decl := Stmt.classDecl name superclass? methods line
    simp [Stmt.tokens] at lexical
    have bound : Nested (superKind superclass?) (boundChain decl name superclass? chain) :=
      nested_bound (nested.declareName lexical.1 open_)
    have kept := (resolves_enterClass decl name superclass? line r chain).kept
    have inside := FunctionDecl.housesAll methods (enterClass name superclass? line r)
      (boundChain decl name superclass? chain) lexical.2.2 (enterClass_kind name superclass? line r ▸ bound)
    refine ⟨?_, rfl, fun clean site member => ?_⟩
    · rw [Stmt.resolve, leaveClass_diagnostics]
      exact kept.trans inside.kept
    · rw [Stmt.resolve, leaveClass_diagnostics] at clean
      rcases List.mem_append.mp member with member | member
      · obtain ⟨ref, named, rfl⟩ := List.mem_map.mp member
        refine ⟨r.classKind, nested, allowed_proper ?_⟩
        cases superclass? with
        | none => cases named
        | some use =>
          simp [superclassTokens] at lexical
          rw [List.mem_singleton.mp named]
          exact lexical.2.1
      · exact inside.housed clean site member

theorem FunctionDecl.houses : ∀ (f : FunctionDecl) (kind : FunctionKind) (r : Resolution) (chain : List Place),
    Lexical f.tokens → Nested r.classKind chain → Houses r (f.resolve kind r) (f.sites chain)
  | { name, params, body, line }, kind, r, chain, lexical, nested => by
    simp [FunctionDecl.tokens] at lexical
    let scope := ScopeSite.function ⟨name, params, body, line⟩
    have entered := houses_params params line { r with functionKind := kind }.openScope
    have inner : Nested r.classKind (⟨scope, params⟩ :: chain) := .plain trivial (lexical_params lexical.2.1) nested
    have inside := Stmt.housesAll body (declareParams params line { r with functionKind := kind }.openScope)
      (⟨scope, params⟩ :: chain) lexical.2.2 (open_function _ _ _) (by rw [entered.kind]; exact inner)
    have all := entered.append inside
    exact ⟨all.kept, all.kind, all.housed⟩

theorem Stmt.housesAll : ∀ (ss : List Stmt) (r : Resolution) (chain : List Place), Lexical (Stmt.tokensAll ss) →
    Open chain → Nested r.classKind chain → Houses r (Stmt.resolveAll ss r) (Stmt.sitesAll ss chain)
  | [], r, _, _, _, _ => .refl r
  | s :: ss, r, chain, lexical, open_, nested => by
    simp [Stmt.tokensAll] at lexical
    have first := s.houses r chain lexical.1 open_ nested
    exact first.append (Stmt.housesAll ss _ _ lexical.2 (Stmt.after_open open_)
      (first.kind ▸ Stmt.after_nested nested open_ lexical.1))

theorem FunctionDecl.housesAll : ∀ (fs : List FunctionDecl) (r : Resolution) (chain : List Place),
    Lexical (FunctionDecl.tokensAll fs) → Nested r.classKind chain →
    Houses r (FunctionDecl.resolveMethods fs r) (FunctionDecl.sitesAll fs chain)
  | [], r, _, _, _ => .refl r
  | f :: fs, r, chain, lexical, nested => by
    simp [FunctionDecl.tokensAll] at lexical
    have first := f.houses (.ofMethod f.name) r chain lexical.1 nested
    exact first.append (FunctionDecl.housesAll fs _ chain lexical.2 (first.kind ▸ nested))

end

/-- The references of a program without errors stand where they may. -/
theorem resolve_housed {program : List Stmt} (lexical : Lexical (Stmt.tokensAll program))
    (clean : (resolve program).diagnostics = []) : ∀ site ∈ Stmt.sitesAll program [], site.Housed :=
  (Stmt.housesAll program .start [] lexical (fun _ member => nomatch member) .top).housed clean

/-! ### Distances -/

theorem findIdx_past {inner outer : List Place} {p : Place} {name : String}
    (past : ∀ q ∈ inner, name ∉ q.names) (here : name ∈ p.names) :
    (inner ++ p :: outer).findIdx? (·.has name) = some inner.length := by
  refine List.findIdx?_eq_some_iff_getElem.mpr ⟨by simp, by simpa [Place.has] using here, fun i less => ?_⟩
  rw [List.getElem_append_left less]
  simpa [Place.has] using past _ (List.getElem_mem less)

theorem Between.findIdx_this {inner outer : List Place} (between : Between inner) (decl : Stmt) :
    (inner ++ ⟨.receiver decl, [thisName]⟩ :: outer).findIdx? (·.has thisName) = some inner.length :=
  findIdx_past (fun p member named => (between.proper p member _ named).1 rfl) List.mem_cons_self

theorem Between.findIdx_super {inner outer : List Place} (between : Between inner) (decl : Stmt) :
    (inner ++ ⟨.receiver decl, [thisName]⟩ :: ⟨.superclass decl, [superName]⟩ :: outer).findIdx? (·.has superName) =
      some (inner.length + 1) := by
  have past : ∀ q ∈ inner ++ [⟨.receiver decl, [thisName]⟩], superName ∉ q.names := by
    intro q member named
    rcases List.mem_append.mp member with member | member
    · exact (between.proper q member _ named).2 rfl
    · rw [List.mem_singleton.mp member] at named
      simp [thisName, superName] at named
  have found := @findIdx_past _ outer ⟨.superclass decl, [superName]⟩ _ past List.mem_cons_self
  rwa [List.length_append, ← List.append_cons] at found

end Lox
