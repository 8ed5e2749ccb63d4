import Lox.Proofs.Scope.Walk

/-!
Where the parts of a program stand. `Stands` goes down from a program to the statements and functions in
it and keeps the scopes around them, and whether a loop of the same function or a function is around them.
What holds of a whole program is brought down to its parts along this way.
-/

namespace Lox

inductive Part
  | stmts (ss : List Stmt)
  | stmt (s : Stmt)
  | function (decl : FunctionDecl)

/-- The scopes behind the first clause of a `for`. -/
def initialChain (chain : List Place) : Option Stmt → List Place
  | none => chain
  | some initial => initial.after chain

/-- Which part stands within which scopes, and whether a loop and a function are around it. -/
inductive Stands (program : List Stmt) : List Place → (inLoop inFunction : Bool) → Part → Prop
  | program : Stands program [] false false (.stmts program)
  | first {chain inLoop inFunction s ss} :
    Stands program chain inLoop inFunction (.stmts (s :: ss)) → Stands program chain inLoop inFunction (.stmt s)
  | others {chain inLoop inFunction s ss} :
    Stands program chain inLoop inFunction (.stmts (s :: ss)) →
    Stands program (s.after chain) inLoop inFunction (.stmts ss)
  | block {chain inLoop inFunction body} :
    Stands program chain inLoop inFunction (.stmt (.block body)) →
    Stands program (⟨.stmt (.block body), []⟩ :: chain) inLoop inFunction (.stmts body)
  | consequent {chain inLoop inFunction test consequent alternative?} :
    Stands program chain inLoop inFunction (.stmt (.ifElse test consequent alternative?)) →
    Stands program chain inLoop inFunction (.stmt consequent)
  | alternative {chain inLoop inFunction test consequent alternative} :
    Stands program chain inLoop inFunction (.stmt (.ifElse test consequent (some alternative))) →
    Stands program chain inLoop inFunction (.stmt alternative)
  | whileBody {chain inLoop inFunction test body} :
    Stands program chain inLoop inFunction (.stmt (.whileLoop test body)) →
    Stands program chain true inFunction (.stmt body)
  | initial {chain inLoop inFunction initial test? step? body} :
    Stands program chain inLoop inFunction (.stmt (.forLoop (some initial) test? step? body)) →
    Stands program (⟨.stmt (.forLoop (some initial) test? step? body), []⟩ :: chain) inLoop inFunction
      (.stmt initial)
  | forBody {chain inLoop inFunction initial? test? step? body} :
    Stands program chain inLoop inFunction (.stmt (.forLoop initial? test? step? body)) →
    Stands program (initialChain (⟨.stmt (.forLoop initial? test? step? body), []⟩ :: chain) initial?) true
      inFunction (.stmt body)
  | function {chain inLoop inFunction decl} :
    Stands program chain inLoop inFunction (.stmt (.funDecl decl)) →
    Stands program (declareName decl.name chain) false true (.function decl)
  | method {chain inLoop inFunction name superclass? methods line decl} :
    Stands program chain inLoop inFunction (.stmt (.classDecl name superclass? methods line)) →
    decl ∈ methods →
    Stands program (boundChain (.classDecl name superclass? methods line) name superclass? chain) false true
      (.function decl)
  | body {chain decl} :
    Stands program chain false true (.function decl) →
    Stands program (⟨.function decl, decl.params⟩ :: chain) false true (.stmts decl.body)

/-! ### Parts -/

namespace Part

def sites (chain : List Place) : Part → List Site
  | .stmts ss => Stmt.sitesAll ss chain
  | .stmt s => s.sites chain
  | .function decl => decl.sites chain

def Stratified : Part → Prop
  | .stmts ss => Stmt.StratifiedAll ss
  | .stmt s => s.Stratified
  | .function decl => decl.Stratified

def Placed (inLoop inFunction : Bool) : Part → Prop
  | .stmts ss => Stmt.PlacedAll inLoop inFunction ss
  | .stmt s => s.Placed inLoop inFunction
  | .function decl => decl.Placed

def tokens : Part → List Token
  | .stmts ss => Stmt.tokensAll ss
  | .stmt s => s.tokens
  | .function decl => decl.tokens

end Part

/-- A scope that binds `super` is around one that binds `this`. -/
def Paired (chain : List Place) : Prop :=
  ∀ d p, chain[d]? = some p → superName ∈ p.names →
    ∃ below q, d = below + 1 ∧ chain[below]? = some q ∧ thisName ∈ q.names

theorem Paired.nil : Paired [] :=
  fun _ _ found => nomatch found

theorem Paired.push {chain : List Place} (paired : Paired chain) (scope : ScopeSite) (names : List String)
    (other : superName ∉ names) : Paired (⟨scope, names⟩ :: chain) := by
  intro d p found named
  cases d with
  | zero =>
    obtain rfl := Option.some.inj found
    exact absurd named other
  | succ d =>
    obtain ⟨below, q, rfl, inner, this⟩ := paired d p found named
    exact ⟨below + 1, q, rfl, inner, this⟩

theorem Paired.declareName {chain : List Place} (paired : Paired chain) {name : String}
    (other : name ≠ superName) : Paired (declareName name chain) := by
  cases chain with
  | nil => exact paired
  | cons p chain =>
    intro d q found named
    cases d with
    | zero =>
      obtain rfl := Option.some.inj found
      rcases List.mem_cons.mp named with same | named
      · exact absurd same.symm other
      · obtain ⟨below, -, bad, -⟩ := paired 0 p rfl named
        cases bad
    | succ d =>
      obtain ⟨below, q', same, inner, this⟩ := paired (d + 1) q found named
      obtain rfl := Nat.succ.inj same
      cases d with
      | zero =>
        obtain rfl := Option.some.inj inner
        exact ⟨0, _, rfl, rfl, List.mem_cons_of_mem _ this⟩
      | succ d => exact ⟨d + 1, q', rfl, inner, this⟩

theorem Paired.bound {chain : List Place} (paired : Paired chain) (decl : Stmt) {name : String}
    (superclass? : Option Use) (other : name ≠ superName) :
    Paired (boundChain decl name superclass? chain) := by
  have outside := paired.declareName other
  cases superclass? with
  | none => exact outside.push _ _ (by simp [thisName, superName])
  | some use =>
    intro d p found named
    match d with
    | 0 =>
      obtain rfl := Option.some.inj found
      simp [thisName, superName] at named
    | 1 => exact ⟨0, _, rfl, rfl, List.mem_cons_self⟩
    | d + 2 =>
      obtain ⟨below, q, rfl, inner, this⟩ := outside d p found named
      exact ⟨below + 2, q, rfl, inner, this⟩

/-- What is known of a part of a program, by where it stands. -/
structure Part.Fits (program : List Stmt) (chain : List Place) (inLoop inFunction : Bool) (part : Part) : Prop where
  sites : ∀ site ∈ part.sites chain, site ∈ Stmt.sitesAll program []
  strata : part.Stratified
  placed : part.Placed inLoop inFunction
  lexical : Lexical part.tokens
  paired : Paired chain

theorem lexical_params {params : List String} (lexical : Lexical (paramTokens params)) :
    ∀ name ∈ params, name ≠ thisName ∧ name ≠ superName := by
  have more (names : List String) (lexical : Lexical (moreParamTokens names)) :
      ∀ name ∈ names, name ≠ thisName ∧ name ≠ superName := by
    induction names with
    | nil => exact fun _ member => nomatch member
    | cons first names ih =>
      rw [moreParamTokens, lexical_cons_mark, lexical_cons_identifier] at lexical
      intro name member
      rcases List.mem_cons.mp member with rfl | member
      · exact lexical.1
      · exact ih lexical.2 name member
  cases params with
  | nil => exact fun _ member => nomatch member
  | cons first params =>
    rw [paramTokens, lexical_cons_identifier] at lexical
    intro name member
    rcases List.mem_cons.mp member with rfl | member
    · exact lexical.1
    · exact more params lexical.2 name member

theorem Stmt.after_paired {s : Stmt} {chain : List Place} (paired : Paired chain) (lexical : Lexical s.tokens) :
    Paired (s.after chain) := by
  cases s with
  | varDecl name initial? line =>
    refine paired.declareName ?_
    cases initial? with
    | none =>
      simp [Stmt.tokens] at lexical
      exact lexical.2
    | some initial =>
      simp [Stmt.tokens] at lexical
      exact lexical.1.2
  | funDecl decl =>
    refine paired.declareName ?_
    obtain ⟨name, params, body, line⟩ := decl
    simp [Stmt.tokens, FunctionDecl.tokens] at lexical
    exact lexical.1.2
  | classDecl name superclass? methods line =>
    refine paired.declareName ?_
    simp [Stmt.tokens] at lexical
    exact lexical.1.2
  | _ => exact paired

variable {program : List Stmt} {chain : List Place} {inLoop inFunction : Bool}

theorem Part.Fits.method {name : String} {superclass? : Option Use} {methods : List FunctionDecl} {line : Nat}
    {decl : FunctionDecl}
    (fits : (Part.stmt (.classDecl name superclass? methods line)).Fits program chain inLoop inFunction)
    (member : decl ∈ methods) :
    (Part.function decl).Fits program
      (boundChain (.classDecl name superclass? methods line) name superclass? chain) false true := by
  let inner := boundChain (.classDecl name superclass? methods line) name superclass? chain
  have lexical := fits.lexical
  simp [Part.tokens, Stmt.tokens] at lexical
  have all (fs : List FunctionDecl) (member : decl ∈ fs) :
      (∀ site ∈ decl.sites inner, site ∈ FunctionDecl.sitesAll fs inner) ∧
      (FunctionDecl.StratifiedAll fs → decl.Stratified) ∧ (FunctionDecl.PlacedAll fs → decl.Placed) ∧
      (Lexical (FunctionDecl.tokensAll fs) → Lexical decl.tokens) := by
    induction fs with
    | nil => cases member
    | cons f fs ih =>
      rw [FunctionDecl.tokensAll, lexical_append]
      rcases List.mem_cons.mp member with rfl | member
      · exact ⟨fun site inside => List.mem_append_left _ inside, And.left, And.left, And.left⟩
      · obtain ⟨sites, strata, placed, lexical⟩ := ih member
        exact ⟨fun site inside => List.mem_append_right _ (sites site inside), strata ∘ And.right,
          placed ∘ And.right, lexical ∘ And.right⟩
  obtain ⟨sites, strata, placed, tokens⟩ := all methods member
  refine ⟨fun site inside => ?_, strata fits.strata, placed fits.placed, tokens lexical.2.2, ?_⟩
  · exact fits.sites site (List.mem_append_right _ (sites site inside))
  · exact fits.paired.bound _ superclass? lexical.1.2

theorem Part.Fits.params {decl : FunctionDecl}
    (fits : (Part.function decl).Fits program chain inLoop inFunction) :
    ∀ name ∈ decl.params, name ≠ thisName ∧ name ≠ superName := by
  obtain ⟨name, params, body, line⟩ := decl
  have lexical := fits.lexical
  simp [Part.tokens, FunctionDecl.tokens] at lexical
  exact lexical_params lexical.2.1

theorem Part.Fits.body {decl : FunctionDecl} (fits : (Part.function decl).Fits program chain false true) :
    (Part.stmts decl.body).Fits program (⟨.function decl, decl.params⟩ :: chain) false true := by
  have proper := fits.params
  obtain ⟨name, params, body, line⟩ := decl
  have lexical := fits.lexical
  simp [Part.tokens, FunctionDecl.tokens] at lexical
  refine ⟨fits.sites, fits.strata, fits.placed, lexical.2.2, ?_⟩
  exact fits.paired.push _ _ fun named => (proper _ named).2 rfl

/-- Each part of a program fits where it stands, if the program does as a whole. -/
theorem Stands.fits {part : Part} (stands : Stands program chain inLoop inFunction part)
    (strata : Stmt.StratifiedAll program) (placed : Stmt.PlacedAll false false program)
    (lexical : Lexical (Stmt.tokensAll program)) : part.Fits program chain inLoop inFunction := by
  induction stands with
  | program => exact ⟨fun _ member => member, strata, placed, lexical, .nil⟩
  | first _ ih =>
    have lexical := ih.lexical
    simp [Part.tokens, Stmt.tokensAll] at lexical
    exact ⟨fun site member => ih.sites site (List.mem_append_left _ member), ih.strata.1, ih.placed.1,
      lexical.1, ih.paired⟩
  | others _ ih =>
    have lexical := ih.lexical
    simp [Part.tokens, Stmt.tokensAll] at lexical
    exact ⟨fun site member => ih.sites site (List.mem_append_right _ member), ih.strata.2, ih.placed.2,
      lexical.2, Stmt.after_paired ih.paired lexical.1⟩
  | block _ ih =>
    have lexical := ih.lexical
    simp [Part.tokens, Stmt.tokens] at lexical
    exact ⟨ih.sites, ih.strata, ih.placed, lexical, ih.paired.push _ _ (by simp)⟩
  | @consequent _ _ _ _ _ alternative? _ ih =>
    have lexical := ih.lexical
    cases alternative? with
    | none =>
      simp [Part.tokens, Stmt.tokens] at lexical
      exact ⟨fun site member => ih.sites site (List.mem_append_right _ member), ih.strata.2.2, ih.placed,
        lexical.2, ih.paired⟩
    | some alternative =>
      simp [Part.tokens, Stmt.tokens] at lexical
      refine ⟨fun site member => ih.sites site ?_, ih.strata.2.1.2.1, ih.placed.1, lexical.2.1, ih.paired⟩
      exact List.mem_append_right _ (List.mem_append_left _ member)
  | alternative _ ih =>
    have lexical := ih.lexical
    simp [Part.tokens, Stmt.tokens] at lexical
    refine ⟨fun site member => ih.sites site ?_, ih.strata.2.2.2, ih.placed.2, lexical.2.2, ih.paired⟩
    exact List.mem_append_right _ (List.mem_append_right _ member)
  | whileBody _ ih =>
    have lexical := ih.lexical
    simp [Part.tokens, Stmt.tokens] at lexical
    exact ⟨fun site member => ih.sites site (List.mem_append_right _ member), ih.strata.2.2, ih.placed,
      lexical.2, ih.paired⟩
  | initial _ ih =>
    have lexical := ih.lexical
    simp [Part.tokens, Stmt.tokens] at lexical
    exact ⟨fun site member => ih.sites site (List.mem_append_left _ member), ih.strata.1.2, ih.placed.1,
      lexical.1, ih.paired.push _ _ (by simp)⟩
  | @forBody _ _ _ initial? test? step? body _ ih =>
    have lexical := ih.lexical
    have opened := ih.paired.push (.stmt (.forLoop initial? test? step? body)) [] (by simp)
    cases initial? with
    | none =>
      simp [Part.tokens, Stmt.tokens] at lexical
      exact ⟨fun site member => ih.sites site (List.mem_append_right _ member), ih.strata.2.2.2, ih.placed,
        lexical.2.2, opened⟩
    | some initial =>
      simp [Part.tokens, Stmt.tokens] at lexical
      refine ⟨fun site member => ih.sites site ?_, ih.strata.2.2.2.2, ih.placed.2, lexical.2.2.2,
        Stmt.after_paired opened lexical.1⟩
      exact List.mem_append_right _ (List.mem_append_right _ member)
  | @function _ _ _ decl _ ih =>
    have lexical := ih.lexical
    simp [Part.tokens, Stmt.tokens] at lexical
    refine ⟨ih.sites, ih.strata, ih.placed, lexical, Stmt.after_paired (s := .funDecl decl) ih.paired ih.lexical⟩
  | method _ member ih => exact ih.method member
  | body _ ih => exact ih.body

/-! ### Scopes of statements -/

/-- Whether frames of a scope bind what programs declare, and neither `this` nor `super`. -/
def ScopeSite.Plain : ScopeSite → Prop
  | .stmt _ => True
  | .function _ => True
  | .superclass _ => False
  | .receiver _ => False

theorem declareName_head (name : String) (chain : List Place) :
    (declareName name chain).head?.map (·.scope) = chain.head?.map (·.scope) := by
  cases chain <;> rfl

theorem Stmt.after_head (s : Stmt) (chain : List Place) :
    (s.after chain).head?.map (·.scope) = chain.head?.map (·.scope) := by
  cases s with
  | varDecl name initial? line => exact declareName_head name chain
  | funDecl decl => exact declareName_head decl.name chain
  | classDecl name superclass? methods line => exact declareName_head name chain
  | _ => rfl

/-- The innermost scope around a statement is plain, if there is one. -/
theorem Stands.plain {part : Part} (stands : Stands program chain inLoop inFunction part)
    (statement : ∀ decl, part ≠ .function decl) : ∀ scope ∈ chain.head?.map (·.scope), scope.Plain := by
  have one {scope : ScopeSite} {names : List String} {chain : List Place} (plain : scope.Plain) :
      ∀ other ∈ (Place.mk scope names :: chain).head?.map (·.scope), other.Plain := by
    rintro other ⟨⟩
    exact plain
  induction stands with
  | program => exact fun _ member => nomatch member
  | first _ ih => exact ih (by simp)
  | others _ ih =>
    rw [Stmt.after_head]
    exact ih (by simp)
  | block => exact one trivial
  | consequent _ ih => exact ih (by simp)
  | alternative _ ih => exact ih (by simp)
  | whileBody _ ih => exact ih (by simp)
  | initial => exact one trivial
  | @forBody _ _ _ initial? =>
    cases initial? with
    | none => exact one trivial
    | some initial =>
      rw [initialChain, Stmt.after_head]
      exact one trivial
  | function => exact absurd rfl (statement _)
  | method => exact absurd rfl (statement _)
  | body => exact one trivial

/-! ### References of parts -/

mutual

theorem Expr.assigned_token : ∀ (e : Expr) (ref : Reference), ref ∈ e.references → ref.assigned = true →
    .identifier ref.name ∈ e.tokens
  | .literal _, _, member, _ => nomatch member
  | .group inner, ref, member, assigned => by
    simp [Expr.tokens, inner.assigned_token ref member assigned]
  | .unary _ operand _, ref, member, assigned => by
    simp [Expr.tokens, operand.assigned_token ref member assigned]
  | .binary _ left right _, ref, member, assigned => by
    rcases List.mem_append.mp member with member | member
    · simp [Expr.tokens, left.assigned_token ref member assigned]
    · simp [Expr.tokens, right.assigned_token ref member assigned]
  | .conditional test consequent alternative, ref, member, assigned => by
    rcases List.mem_append.mp member with member | member
    · simp [Expr.tokens, test.assigned_token ref member assigned]
    rcases List.mem_append.mp member with member | member
    · simp [Expr.tokens, consequent.assigned_token ref member assigned]
    · simp [Expr.tokens, alternative.assigned_token ref member assigned]
  | .var use, ref, member, assigned => by
    rw [List.mem_singleton.mp member] at assigned
    cases assigned
  | .assign target value, ref, member, assigned => by
    rcases List.mem_cons.mp member with rfl | member
    · simp [Expr.tokens]
    · simp [Expr.tokens, value.assigned_token ref member assigned]
  | .thisRef id _, ref, member, assigned => by
    rw [List.mem_singleton.mp member] at assigned
    cases assigned
  | .superRef id _ _, ref, member, assigned => by
    rw [List.mem_singleton.mp member] at assigned
    cases assigned
  | .call callee arguments _, ref, member, assigned => by
    rcases List.mem_append.mp member with member | member
    · simp [Expr.tokens, callee.assigned_token ref member assigned]
    · simp [Expr.tokens, Expr.assigned_itemToken arguments ref member assigned]
  | .field object _ _, ref, member, assigned => by
    simp [Expr.tokens, object.assigned_token ref member assigned]
  | .setField object _ value _, ref, member, assigned => by
    rcases List.mem_append.mp member with member | member
    · simp [Expr.tokens, object.assigned_token ref member assigned]
    · simp [Expr.tokens, value.assigned_token ref member assigned]
  | .array elements, ref, member, assigned => by
    simp [Expr.tokens, Expr.assigned_itemToken elements ref member assigned]
  | .element sequence index _, ref, member, assigned => by
    rcases List.mem_append.mp member with member | member
    · simp [Expr.tokens, sequence.assigned_token ref member assigned]
    · simp [Expr.tokens, index.assigned_token ref member assigned]
  | .setElement sequence index value _, ref, member, assigned => by
    rcases List.mem_append.mp member with member | member
    · simp [Expr.tokens, sequence.assigned_token ref member assigned]
    rcases List.mem_append.mp member with member | member
    · simp [Expr.tokens, index.assigned_token ref member assigned]
    · simp [Expr.tokens, value.assigned_token ref member assigned]

theorem Expr.assigned_itemToken : ∀ (es : List Expr) (ref : Reference), ref ∈ Expr.referencesAll es →
    ref.assigned = true → .identifier ref.name ∈ Expr.itemTokens es
  | [], _, member, _ => nomatch member
  | e :: es, ref, member, assigned => by
    rcases List.mem_append.mp member with member | member
    · simp [Expr.itemTokens, e.assigned_token ref member assigned]
    · simp [Expr.itemTokens, Expr.assigned_moreToken es ref member assigned]

theorem Expr.assigned_moreToken : ∀ (es : List Expr) (ref : Reference), ref ∈ Expr.referencesAll es →
    ref.assigned = true → .identifier ref.name ∈ Expr.moreTokens es
  | [], _, member, _ => nomatch member
  | e :: es, ref, member, assigned => by
    rcases List.mem_append.mp member with member | member
    · simp [Expr.moreTokens, e.assigned_token ref member assigned]
    · simp [Expr.moreTokens, Expr.assigned_moreToken es ref member assigned]

end

theorem Expr.assigned_optToken (e? : Option Expr) (ref : Reference) (member : ref ∈ Expr.referencesOpt e?)
    (assigned : ref.assigned = true) : .identifier ref.name ∈ Expr.optTokens e? := by
  cases e? with
  | none => cases member
  | some e =>
    rw [Expr.referencesOpt_some] at member
    exact e.assigned_token ref member assigned

theorem Expr.references_mem {e : Expr} {es : List Expr} (member : e ∈ es) :
    ∀ ref ∈ e.references, ref ∈ Expr.referencesAll es := by
  induction es with
  | nil => cases member
  | cons first es ih =>
    intro ref inside
    rcases List.mem_cons.mp member with rfl | member
    · exact List.mem_append_left _ inside
    · exact List.mem_append_right _ (ih member ref inside)

/-- The references of an expression where it stands. What is assigned to is a variable. -/
structure Refers (program : List Stmt) (chain : List Place) (pending? : Option String)
    (references : List Reference) : Prop where
  sited : ∀ ref ∈ references, ⟨chain, pending?, ref⟩ ∈ Stmt.sitesAll program []
  proper : ∀ ref ∈ references, ref.assigned = true → ref.name ≠ thisName ∧ ref.name ≠ superName
  paired : Paired chain

theorem Refers.sub {pending? : Option String} {as bs : List Reference} (refers : Refers program chain pending? bs)
    (inside : ∀ ref ∈ as, ref ∈ bs) : Refers program chain pending? as :=
  ⟨fun ref member => refers.sited ref (inside ref member),
    fun ref member => refers.proper ref (inside ref member), refers.paired⟩

/-- The references whose sites are among those of a statement. -/
theorem Part.Fits.refers {s : Stmt} {inner : List Place} {pending? : Option String} {references : List Reference}
    (fits : (Part.stmt s).Fits program chain inLoop inFunction)
    (inside : ∀ site ∈ sitesIn inner pending? references, site ∈ s.sites chain)
    (spelled : ∀ ref ∈ references, ref.assigned = true → .identifier ref.name ∈ s.tokens)
    (paired : Paired inner) : Refers program inner pending? references := by
  refine ⟨fun ref member => ?_, fun ref member assigned => ?_, paired⟩
  · exact fits.sites _ (inside _ (List.mem_map_of_mem member))
  · exact fits.lexical _ (spelled ref member assigned)

end Lox
