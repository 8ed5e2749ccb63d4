import Lox.Proofs.Scope.StaticErrors

/-!
The walk over a phrase leaves what is around the phrase as it was. Of the scopes it changes the innermost one
only, by the names that a statement declares there, and of the distances those of the references in the phrase.
So it carries nothing from one statement at the top level to the next: a program is walked over as its statements
are one by one, and what is found in them is put together.
-/

namespace Lox

open Resolution

/-! ### What a phrase adds -/

/-- Behind a phrase the innermost scope has some names, which are known there, besides those it had. Only
distances of some ids may be others, and nothing reported is taken back. -/
structure Resolution.Adds (r r' : Resolution) (names : List String) (ids : List Nat) : Prop where
  innermost : ∀ scope ∈ r.scopes.head?, ∃ scope' ∈ r'.scopes.head?, ∀ name,
    scope'.get? name = if name ∈ names then some true else scope.get? name
  entries : ∀ id, id ∉ ids → r'.distances.get? id = r.distances.get? id
  diagnostics : r.diagnostics <+: r'.diagnostics

/-- A phrase adds something to a walk, which is at the same place in front of the phrase and behind it. -/
structure Resolution.Leaves (r r' : Resolution) (names : List String) (ids : List Nat) : Prop
    extends r.Restored r', r.Adds r' names ids

namespace Resolution

variable {r r₁ r' : Resolution} {as bs names : List String} {is js ids : List Nat}

theorem Adds.append (first : r.Adds r₁ as is) (second : r₁.Adds r' bs js) : r.Adds r' (as ++ bs) (is ++ js) := by
  refine ⟨fun scope here => ?_, fun id outside => ?_, first.diagnostics.trans second.diagnostics⟩
  · obtain ⟨scope₁, here₁, has₁⟩ := first.innermost scope here
    obtain ⟨scope', here', has'⟩ := second.innermost scope₁ here₁
    refine ⟨scope', here', fun name => ?_⟩
    rw [has', has₁]
    by_cases before : name ∈ as <;> by_cases behind : name ∈ bs <;> simp [before, behind]
  · rw [List.mem_append, not_or] at outside
    exact (second.entries id outside.2).trans (first.entries id outside.1)

/-- A phrase that declares nothing in the scope in which it stands. -/
theorem adds_nothing (scopes : r'.scopes = r.scopes)
    (entries : ∀ id, id ∉ ids → r'.distances.get? id = r.distances.get? id)
    (diagnostics : r.diagnostics <+: r'.diagnostics) : r.Adds r' [] ids :=
  ⟨fun scope here => ⟨scope, scopes ▸ here, fun _ => (if_neg List.not_mem_nil).symm⟩, entries, diagnostics⟩

theorem Adds.refl (r : Resolution) : r.Adds r [] [] :=
  adds_nothing rfl (fun _ _ => rfl) (List.prefix_refl _)

theorem Adds.congr (adds : r.Adds r' as ids) (same : ∀ name, name ∈ as ↔ name ∈ bs) : r.Adds r' bs ids := by
  refine { adds with innermost := fun scope here => ?_ }
  obtain ⟨scope', here', has⟩ := adds.innermost scope here
  refine ⟨scope', here', fun name => ?_⟩
  simp only [has, same]

/-- What is declared in a scope of its own is left with the scope. -/
theorem Adds.close (adds : r.openScope.Adds r' names ids) (restored : r.openScope.Restored r') :
    r.Adds r'.closeScope [] ids :=
  adds_nothing restored.outer adds.entries adds.diagnostics

end Resolution

variable {r r' : Resolution}

theorem Walked.adds {references : List Reference} (walked : Walked r r' references) :
    r.Adds r' [] (referenceIds references) :=
  adds_nothing walked.scopes walked.others walked.diagnostics

theorem declare_scopes (r : Resolution) (name : String) (line : Nat) :
    (r.declare name line).scopes = (r.setName name false).scopes := by
  unfold Resolution.declare
  dsimp only
  split <;> rfl

/-- A name is declared, and known behind its initializer. -/
theorem adds_defined {name : String} {line : Nat} {references : List Reference}
    (walked : Walked (r.declare name line) r' references) :
    r.Adds (r'.define name) [name] (referenceIds references) := by
  refine ⟨fun scope here => ?_, fun id outside => ?_, ?_⟩
  · obtain ⟨outer, scopes⟩ : ∃ outer, r.scopes = scope :: outer := List.head?_eq_some_iff.mp here
    have between : r'.scopes = scope.put name false :: outer := by
      rw [walked.scopes, declare_scopes, setName, scopes]
    refine ⟨(scope.put name false).put name true, ?_, fun other => ?_⟩
    · rw [define, setName, between]
      rfl
    · simp only [Table.get?_put, List.mem_singleton]
      by_cases same : other = name <;> simp [same]
  · have same : (r'.define name).distances = r'.distances := setName_distances _ _ _
    rw [same, walked.others id outside, declare_distances]
  · rw [define_diagnostics]
    exact (declare_keeps r name line).trans walked.diagnostics

theorem adds_declared (r : Resolution) (name : String) (line : Nat) :
    r.Adds ((r.declare name line).define name) [name] [] :=
  adds_defined (.refl _)

theorem adds_params (params : List String) (line : Nat) (r : Resolution) :
    r.Adds (declareParams params line r) params [] := by
  induction params generalizing r with
  | nil => exact .refl r
  | cons name params ih => exact (adds_declared r name line).append (ih _)

/-- The test and the step of a loop. -/
theorem adds_conditions (test? step? : Option Expr) (r : Resolution) :
    r.Adds (Expr.resolveOpt step? (Expr.resolveOpt test? r)) []
      (referenceIds (Expr.referencesOpt test? ++ Expr.referencesOpt step?)) :=
  ((Expr.walkedOpt test? r).append (Expr.walkedOpt step? _)).adds

theorem enterClass_entries (name : String) (superclass? : Option Use) (line : Nat) (r : Resolution) {id : Nat}
    (outside : id ∉ referenceIds (superclassReferences superclass?)) :
    (enterClass name superclass? line r).distances.get? id = r.distances.get? id := by
  have named : (({ r with classKind := .base }.declare name line).define name).distances = r.distances :=
    (setName_distances _ _ _).trans (declare_distances { r with classKind := .base } name line)
  cases superclass? with
  | none => exact congrArg (Table.get? id) ((setName_distances _ _ _).trans named)
  | some use =>
    have bound : ∀ inner : Resolution, ((inner.openScope.define superName).openScope.define thisName).distances =
        inner.distances :=
      fun inner => (setName_distances _ _ _).trans (setName_distances inner.openScope superName true)
    refine (congrArg (Table.get? id) (bound _)).trans (((walked_read use).others id outside).trans ?_)
    refine congrArg (Table.get? id) (Eq.trans ?_ named)
    dsimp only
    split <;> rfl

/-- A class and what its methods refer to. -/
theorem adds_class (name : String) (superclass? : Option Use) (line : Nat)
    (restored : (enterClass name superclass? line r).Restored r')
    (methods : (enterClass name superclass? line r).Adds r' [] ids) :
    r.Adds (leaveClass superclass? r.classKind r') [name] (referenceIds (superclassReferences superclass?) ++ ids) := by
  have declared := adds_declared { r with classKind := .base } name line
  have distances : (leaveClass superclass? r.classKind r').distances = r'.distances := by cases superclass? <;> rfl
  have diagnostics : (leaveClass superclass? r.classKind r').diagnostics = r'.diagnostics := by
    cases superclass? <;> rfl
  refine ⟨fun scope here => ?_, fun id outside => ?_, ?_⟩
  · rw [leaveClass_scopes name superclass? line r.classKind restored]
    exact declared.innermost scope here
  · rw [List.mem_append, not_or] at outside
    rw [distances, methods.entries id outside.2, enterClass_entries name superclass? line r outside.1]
  · rw [diagnostics]
    exact (resolves_enterClass .breakLoop name superclass? line r []).kept.trans methods.diagnostics

theorem FunctionDecl.adds_of_body {name : String} {params : List String} {body : List Stmt} {line : Nat}
    {kind : FunctionKind} {names : List String} {ids : List Nat}
    (inside : ∀ inner : Resolution, inner.Adds (Stmt.resolveAll body inner) names ids) :
    r.Adds (FunctionDecl.resolve ⟨name, params, body, line⟩ kind r) [] ids := by
  have entered := adds_params params line { r with functionKind := kind }.openScope
  have all := entered.append (inside _)
  exact adds_nothing (FunctionDecl.resolve_scopes ⟨name, params, body, line⟩ kind r) all.entries all.diagnostics

mutual

theorem Stmt.adds : ∀ (s : Stmt) (r : Resolution) (chain : List Place),
    r.Adds (s.resolve r) s.declared (siteIds (s.sites chain))
  | .expr value, r, chain => by
    rw [Stmt.sites, siteIds_sitesIn]
    exact (value.walked r).adds
  | .print items _, r, chain => by
    rw [Stmt.sites, siteIds_sitesIn]
    exact (Expr.walkedAll items r).adds
  | .varDecl name initial? line, r, chain => by
    rw [Stmt.sites, siteIds_sitesIn]
    exact adds_defined (Expr.walkedOpt initial? _)
  | .block body, r, chain => (Stmt.addsAll body r.openScope _).close (Stmt.restoredAll body _)
  | .ifElse test consequent none, r, chain => by
    rw [Stmt.sites, siteIds_append, siteIds_sitesIn]
    exact (test.walked r).adds.append (consequent.adds _ chain)
  | .ifElse test consequent (some alternative), r, chain => by
    rw [Stmt.sites, siteIds_append, siteIds_append, siteIds_sitesIn]
    have branches := (consequent.adds (test.resolve r) chain).append (alternative.adds _ chain)
    exact (test.walked r).adds.append (branches.congr fun name => by simp [or_comm])
  | .whileLoop test body, r, chain => by
    rw [Stmt.sites, siteIds_append, siteIds_sitesIn]
    exact (test.walked r).adds.append (body.adds _ chain)
  | .forLoop none test? step? body, r, chain => by
    rw [Stmt.sites, siteIds_append, siteIds_sitesIn]
    refine ((adds_conditions test? step? r.openScope).append (body.adds _ _)).close ?_
    exact (Expr.restoredAll test?.toList _).trans ((Expr.restoredAll step?.toList _).trans (body.restored _))
  | .forLoop (some initial) test? step? body, r, chain => by
    rw [Stmt.sites, siteIds_append, siteIds_append, siteIds_sitesIn]
    refine ((initial.adds r.openScope _).append ((adds_conditions test? step? _).append (body.adds _ _))).close ?_
    exact (initial.restored _).trans ((Expr.restoredAll test?.toList _).trans
      ((Expr.restoredAll step?.toList _).trans (body.restored _)))
  | .breakLoop, r, _ => .refl r
  | .continueLoop, r, _ => .refl r
  | .funDecl decl, r, chain => (adds_declared r decl.name decl.line).append (decl.adds .function _ _)
  | .returnValue value? line, r, chain => by
    rw [Stmt.sites, siteIds_sitesIn]
    exact (walked_return value? line r).adds
  | .classDecl name superclass? methods line, r, chain => by
    rw [Stmt.sites, siteIds_append, siteIds_sitesIn]
    exact adds_class name superclass? line (FunctionDecl.restoredAll methods _) (FunctionDecl.addsAll methods _ _)

theorem FunctionDecl.adds : ∀ (f : FunctionDecl) (kind : FunctionKind) (r : Resolution) (chain : List Place),
    r.Adds (f.resolve kind r) [] (siteIds (f.sites chain))
  | { name := _, params := _, body, line := _ }, _, _, _ =>
    FunctionDecl.adds_of_body fun inner => Stmt.addsAll body inner _

theorem Stmt.addsAll : ∀ (ss : List Stmt) (r : Resolution) (chain : List Place),
    r.Adds (Stmt.resolveAll ss r) (ss.flatMap Stmt.declared) (siteIds (Stmt.sitesAll ss chain))
  | [], r, _ => .refl r
  | s :: ss, r, chain => by
    rw [Stmt.sitesAll, siteIds_append, List.flatMap_cons]
    exact (s.adds r chain).append (Stmt.addsAll ss _ _)

theorem FunctionDecl.addsAll : ∀ (fs : List FunctionDecl) (r : Resolution) (chain : List Place),
    r.Adds (FunctionDecl.resolveMethods fs r) [] (siteIds (FunctionDecl.sitesAll fs chain))
  | [], r, _ => .refl r
  | f :: fs, r, chain => by
    rw [FunctionDecl.sitesAll, siteIds_append]
    exact (f.adds _ r chain).append (FunctionDecl.addsAll fs _ chain)

end

/-! ### Tables put together -/

namespace Table

variable {κ α : Type} [DecidableEq κ]

theorem put_put (key : κ) (old value : α) (t : Table κ α) : (t.put key old).put key value = t.put key value := by
  induction t with
  | nil => simp [put]
  | cons entry rest ih => by_cases same : entry.1 = key <;> simp [put, same, ih]

/-- Values are put under two keys in either order, if one of the keys has its place already. -/
theorem put_comm {key other : κ} (apart : key ≠ other) (value value' : α) {t : Table κ α} (present : t.has key) :
    (t.put other value').put key value = (t.put key value).put other value' := by
  induction t with
  | nil => cases present
  | cons entry rest ih =>
    by_cases here : entry.1 = key
    · simp [put, here, apart]
    · have present : Table.has key rest := by simpa [has, get?, here] using present
      by_cases there : entry.1 = other <;> simp [put, here, there, apart.symm, ih present]

theorem merge_cons (entry : κ × α) (t other : Table κ α) :
    t.merge (entry :: other) = (t.put entry.1 entry.2).merge other := rfl

theorem merge_put_outside {key : κ} (value : α) {other t : Table κ α} (outside : key ∉ other.map Prod.fst)
    (present : t.has key) : (t.merge other).put key value = (t.put key value).merge other := by
  induction other generalizing t with
  | nil => rfl
  | cons entry rest ih =>
    obtain ⟨apart, outside⟩ : key ≠ entry.1 ∧ key ∉ rest.map Prod.fst := by simpa using outside
    rw [merge_cons, merge_cons, ih outside (by simp [has_put, present]), put_comm apart _ _ present]

/-- What is put into a table is put into what that table is merged into. -/
theorem merge_put (key : κ) (value : α) {other : Table κ α} (distinct : other.Distinct) (t : Table κ α) :
    t.merge (other.put key value) = (t.merge other).put key value := by
  induction other generalizing t with
  | nil => rfl
  | cons entry rest ih =>
    obtain ⟨old, distinct⟩ := List.nodup_cons.mp distinct
    by_cases same : entry.1 = key
    · subst same
      rw [put, if_pos rfl, merge_cons, merge_cons, merge_put_outside value old (by simp [has_put]), put_put]
    · rw [put, if_neg same, merge_cons, merge_cons]
      exact ih distinct _

end Table

/-! ### A walk on top of another one -/

/-- Two walks at the same place, of which the second one has found some distances and errors before. -/
structure Resolution.Atop (known : Distances) (earlier : List Diagnostic) (r r' : Resolution) : Prop where
  scopes : r'.scopes = r.scopes
  distances : r'.distances = known.merge r.distances
  distinct : r.distances.Distinct
  diagnostics : r'.diagnostics = earlier ++ r.diagnostics
  functionKind : r'.functionKind = r.functionKind
  classKind : r'.classKind = r.classKind

namespace Resolution.Atop

variable {known : Distances} {earlier : List Diagnostic} {r r' : Resolution}

theorem report (atop : Atop known earlier r r') (line : Nat) (error : StaticError) :
    Atop known earlier (r.report line error) (r'.report line error) := by
  refine { atop with diagnostics := ?_ }
  rw [Resolution.report, Resolution.report, atop.diagnostics, List.append_assoc]

theorem openScope (atop : Atop known earlier r r') : Atop known earlier r.openScope r'.openScope :=
  { atop with scopes := congrArg ([] :: ·) atop.scopes }

theorem closeScope (atop : Atop known earlier r r') : Atop known earlier r.closeScope r'.closeScope :=
  { atop with scopes := congrArg List.tail atop.scopes }

theorem withFunctionKind (atop : Atop known earlier r r') (kind : FunctionKind) :
    Atop known earlier { r with functionKind := kind } { r' with functionKind := kind } :=
  { atop with functionKind := rfl }

theorem withClassKind (atop : Atop known earlier r r') (kind : ClassKind) :
    Atop known earlier { r with classKind := kind } { r' with classKind := kind } :=
  { atop with classKind := rfl }

theorem setName (atop : Atop known earlier r r') (name : String) (isKnown : Bool) :
    Atop known earlier (r.setName name isKnown) (r'.setName name isKnown) := by
  unfold Resolution.setName
  rw [atop.scopes]
  cases r.scopes with
  | nil => exact atop
  | cons scope outer => exact { atop with scopes := rfl }

theorem declare (atop : Atop known earlier r r') (name : String) (line : Nat) :
    Atop known earlier (r.declare name line) (r'.declare name line) := by
  unfold Resolution.declare declares
  rw [atop.scopes]
  dsimp only
  split
  · exact (atop.setName name false).report line _
  · exact atop.setName name false

theorem define (atop : Atop known earlier r r') (name : String) :
    Atop known earlier (r.define name) (r'.define name) :=
  atop.setName name true

theorem refer (atop : Atop known earlier r r') (id : Nat) (name : String) :
    Atop known earlier (r.refer id name) (r'.refer id name) := by
  unfold Resolution.refer
  rw [atop.scopes]
  cases r.scopes.findIdx? (·.has name) with
  | none => exact atop
  | some distance =>
    refine { atop with scopes := rfl, distances := ?_, distinct := atop.distinct.put id distance }
    rw [Table.merge_put id distance atop.distinct, ← atop.distances]

theorem read (atop : Atop known earlier r r') (use : Use) : Atop known earlier (r.read use) (r'.read use) := by
  unfold Resolution.read
  rw [atop.scopes]
  split
  · exact (atop.report use.line _).refer use.id use.name
  · exact atop.refer use.id use.name

end Resolution.Atop

section Walks

variable {known : Distances} {earlier : List Diagnostic} {r r' : Resolution}

mutual

theorem Expr.resolve_atop : ∀ (e : Expr) {r r' : Resolution}, r.Atop known earlier r' →
    (e.resolve r).Atop known earlier (e.resolve r')
  | .literal _, _, _, atop => atop
  | .group inner, _, _, atop => inner.resolve_atop atop
  | .unary _ operand _, _, _, atop => operand.resolve_atop atop
  | .binary _ left right _, _, _, atop => right.resolve_atop (left.resolve_atop atop)
  | .conditional test consequent alternative, _, _, atop =>
    alternative.resolve_atop (consequent.resolve_atop (test.resolve_atop atop))
  | .var use, _, _, atop => atop.read use
  | .assign target value, _, _, atop => (value.resolve_atop atop).refer target.id target.name
  | .thisRef id line, r, r', atop => by
    unfold Expr.resolve
    rw [atop.classKind]
    split
    · exact atop.report line .thisOutsideClass
    · exact atop.refer id thisName
  | .superRef id _ line, r, r', atop => by
    unfold Expr.resolve
    rw [atop.classKind]
    split
    · exact atop.refer id superName
    · exact atop.report line .superOutsideSubclass
  | .call callee arguments _, _, _, atop => Expr.resolveAll_atop arguments (callee.resolve_atop atop)
  | .field object _ _, _, _, atop => object.resolve_atop atop
  | .setField object _ value _, _, _, atop => object.resolve_atop (value.resolve_atop atop)
  | .array elements, _, _, atop => Expr.resolveAll_atop elements atop
  | .element sequence index _, _, _, atop => index.resolve_atop (sequence.resolve_atop atop)
  | .setElement sequence index value _, _, _, atop =>
    index.resolve_atop (sequence.resolve_atop (value.resolve_atop atop))

theorem Expr.resolveAll_atop : ∀ (es : List Expr) {r r' : Resolution}, r.Atop known earlier r' →
    (Expr.resolveAll es r).Atop known earlier (Expr.resolveAll es r')
  | [], _, _, atop => atop
  | e :: es, _, _, atop => Expr.resolveAll_atop es (e.resolve_atop atop)

end

theorem declareParams_atop (params : List String) (line : Nat) (atop : r.Atop known earlier r') :
    (declareParams params line r).Atop known earlier (declareParams params line r') := by
  unfold declareParams
  induction params generalizing r r' with
  | nil => exact atop
  | cons name params ih => exact ih ((atop.declare name line).define name)

theorem resolveReturn_atop (value? : Option Expr) (line : Nat) (atop : r.Atop known earlier r') :
    (resolveReturn value? line r).Atop known earlier (resolveReturn value? line r') := by
  cases value? with
  | none => exact atop
  | some value =>
    refine value.resolve_atop ?_
    rw [atop.functionKind]
    split
    · exact atop.report line .returnFromInitializer
    · exact atop

theorem enterClass_atop (name : String) (superclass? : Option Use) (line : Nat) (atop : r.Atop known earlier r') :
    (enterClass name superclass? line r).Atop known earlier (enterClass name superclass? line r') := by
  have named := ((atop.withClassKind .base).declare name line).define name
  cases superclass? with
  | none => exact named.openScope.define thisName
  | some use =>
    refine (Atop.openScope (Atop.define (Atop.openScope (Atop.read (.withClassKind ?_ _) use)) _)).define _
    split
    · exact named.report use.line .inheritFromSelf
    · exact named

theorem leaveClass_atop (superclass? : Option Use) (outer : ClassKind) (atop : r.Atop known earlier r') :
    (leaveClass superclass? outer r).Atop known earlier (leaveClass superclass? outer r') := by
  cases superclass? with
  | none => exact atop.closeScope.withClassKind outer
  | some _ => exact atop.closeScope.closeScope.withClassKind outer

mutual

theorem Stmt.resolve_atop : ∀ (s : Stmt) {r r' : Resolution}, r.Atop known earlier r' →
    (s.resolve r).Atop known earlier (s.resolve r')
  | .expr value, _, _, atop => value.resolve_atop atop
  | .print items _, _, _, atop => Expr.resolveAll_atop items atop
  | .varDecl name initial? line, _, _, atop =>
    (Expr.resolveAll_atop initial?.toList (atop.declare name line)).define name
  | .block body, _, _, atop => (Stmt.resolveAll_atop body atop.openScope).closeScope
  | .ifElse test consequent none, _, _, atop => consequent.resolve_atop (test.resolve_atop atop)
  | .ifElse test consequent (some alternative), _, _, atop =>
    alternative.resolve_atop (consequent.resolve_atop (test.resolve_atop atop))
  | .whileLoop test body, _, _, atop => body.resolve_atop (test.resolve_atop atop)
  | .forLoop none test? step? body, _, _, atop =>
    (body.resolve_atop (Expr.resolveAll_atop step?.toList
      (Expr.resolveAll_atop test?.toList atop.openScope))).closeScope
  | .forLoop (some initial) test? step? body, _, _, atop =>
    (body.resolve_atop (Expr.resolveAll_atop step?.toList
      (Expr.resolveAll_atop test?.toList (initial.resolve_atop atop.openScope)))).closeScope
  | .breakLoop, _, _, atop => atop
  | .continueLoop, _, _, atop => atop
  | .funDecl decl, _, _, atop => decl.resolve_atop .function ((atop.declare decl.name decl.line).define decl.name)
  | .returnValue value? line, _, _, atop => resolveReturn_atop value? line atop
  | .classDecl name superclass? methods line, r, r', atop => by
    have inside := FunctionDecl.resolveMethods_atop methods (enterClass_atop name superclass? line atop)
    rw [Stmt.resolve, Stmt.resolve, atop.classKind]
    exact leaveClass_atop superclass? r.classKind inside

theorem FunctionDecl.resolve_atop : ∀ (f : FunctionDecl) (kind : FunctionKind) {r r' : Resolution},
    r.Atop known earlier r' → (f.resolve kind r).Atop known earlier (f.resolve kind r')
  | { name, params, body, line }, kind, r, r', atop => by
    have entered := declareParams_atop params line (atop.withFunctionKind kind).openScope
    have inside := (Stmt.resolveAll_atop body entered).closeScope
    exact { inside with functionKind := atop.functionKind }

theorem Stmt.resolveAll_atop : ∀ (ss : List Stmt) {r r' : Resolution}, r.Atop known earlier r' →
    (Stmt.resolveAll ss r).Atop known earlier (Stmt.resolveAll ss r')
  | [], _, _, atop => atop
  | s :: ss, _, _, atop => Stmt.resolveAll_atop ss (s.resolve_atop atop)

theorem FunctionDecl.resolveMethods_atop : ∀ (fs : List FunctionDecl) {r r' : Resolution},
    r.Atop known earlier r' →
    (FunctionDecl.resolveMethods fs r).Atop known earlier (FunctionDecl.resolveMethods fs r')
  | [], _, _, atop => atop
  | f :: fs, _, _, atop => FunctionDecl.resolveMethods_atop fs (f.resolve_atop _ atop)

end

end Walks

/-! ### Programs, statement by statement -/

/-- A walk at the top level that has found some distances and errors. -/
def Resolution.found (distances : Distances) (diagnostics : List Diagnostic) : Resolution :=
  { start with distances, diagnostics }

/-- Every walk at the top level is over a statement as one of its own, but for what it has found before. -/
theorem resolve_found (s : Stmt) (known : Distances) (earlier : List Diagnostic) :
    s.resolve (found known earlier) =
      found (known.merge (resolve [s]).distances) (earlier ++ (resolve [s]).diagnostics) := by
  have start : Resolution.start.Atop known earlier (found known earlier) :=
    ⟨rfl, rfl, List.nodup_nil, (List.append_nil _).symm, rfl, rfl⟩
  have atop := s.resolve_atop start
  have restored := s.restored .start
  have scopes := List.eq_nil_of_length_eq_zero restored.depth
  cases behind : s.resolve (found known earlier)
  rw [behind] at atop
  obtain ⟨sameScopes, sameDistances, -, sameDiagnostics, sameFunction, sameClass⟩ := atop
  obtain rfl := sameScopes.trans scopes
  obtain rfl := sameDistances
  obtain rfl := sameDiagnostics
  obtain rfl := sameFunction.trans restored.functionKind
  obtain rfl := sameClass.trans restored.classKind
  rfl

theorem resolveAll_found (ss : List Stmt) (known : Distances) (earlier : List Diagnostic) :
    Stmt.resolveAll ss (found known earlier) =
      found ((ss.map fun s => (resolve [s]).distances).foldl Table.merge known)
        (earlier ++ ss.flatMap fun s => (resolve [s]).diagnostics) := by
  induction ss generalizing known earlier with
  | nil => exact congrArg (found known) (List.append_nil _).symm
  | cons s ss ih =>
    rw [Stmt.resolveAll, resolve_found, ih, List.map_cons, List.foldl_cons, List.flatMap_cons, List.append_assoc]

/-- A walk over a phrase leaves the scopes around it and the kinds of function and class as they were, adds to
the innermost scope the names that are declared there, all of them known, and keeps the distances of all other
references and what has been reported. So the walk over a program is that over each of its statements by itself:
the distances are put together and the diagnostics follow each other. -/
theorem walk_restores :
    (∀ (e : Expr) (r : Resolution), r.Leaves (e.resolve r) [] (referenceIds e.references)) ∧
    (∀ (s : Stmt) (r : Resolution), r.Leaves (s.resolve r) s.declared (siteIds (s.sites []))) ∧
    (∀ (f : FunctionDecl) (kind : FunctionKind) (r : Resolution),
      r.Leaves (f.resolve kind r) [] (siteIds (f.sites []))) ∧
    ∀ program, resolve program = { Resolution.start with
      distances := (program.map fun s => (resolve [s]).distances).foldl Table.merge []
      diagnostics := program.flatMap fun s => (resolve [s]).diagnostics } :=
  ⟨fun e r => ⟨e.restored r, (e.walked r).adds⟩, fun s r => ⟨s.restored r, s.adds r []⟩,
    fun f kind r => ⟨f.restored kind r, f.adds kind r []⟩, fun program => resolveAll_found program [] []⟩

end Lox
