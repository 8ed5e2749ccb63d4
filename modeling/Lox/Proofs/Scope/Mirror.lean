import Lox.Proofs.Scope.Renaming

/-!
The walk over a program with a variable renamed. It mirrors the walk over the given program: it is at the
same place, with the names of scopes exchanged where those of the program are, and finds each name as far out.
The new name is nowhere, so no scope in between can have the other name.
-/

namespace Lox

open Resolution

/-! ### Tables with other keys -/

namespace Table

variable {κ α : Type} [DecidableEq κ] {f : κ → κ}

def rekey (f : κ → κ) (t : Table κ α) : Table κ α :=
  t.map fun entry => (f entry.1, entry.2)

theorem get?_rekey (injective : ∀ a b, f a = f b → a = b) (key : κ) (t : Table κ α) :
    (t.rekey f).get? (f key) = t.get? key := by
  induction t with
  | nil => rfl
  | cons entry rest ih =>
    change (if f entry.1 = f key then _ else get? (f key) (rekey f rest)) = if entry.1 = key then _ else _
    by_cases same : entry.1 = key
    · rw [if_pos same, if_pos (congrArg f same)]
    · rw [if_neg same, if_neg fun h => same (injective _ _ h), ih]

theorem put_rekey (injective : ∀ a b, f a = f b → a = b) (key : κ) (value : α) (t : Table κ α) :
    (t.rekey f).put (f key) value = (t.put key value).rekey f := by
  induction t with
  | nil => rfl
  | cons entry rest ih =>
    change (if f entry.1 = f key then _ else _ :: put (f key) value (rekey f rest)) =
      rekey f (if entry.1 = key then _ else _)
    by_cases same : entry.1 = key
    · rw [if_pos same, if_pos (congrArg f same)]
      rfl
    · rw [if_neg same, if_neg fun h => same (injective _ _ h), ih]
      rfl

end Table

/-! ### Scopes with names exchanged -/

/-- Scopes without the new name, and the same ones with the names exchanged in some of them. -/
inductive Renaming.Scopes (ρ : Renaming) : Marks → List Scope → List Scope → Prop
  | nil : ρ.Scopes [] [] []
  | cons {marks : Marks} {scopes scopes' : List Scope} (marked : Bool) (scope : Scope) :
    scope.get? ρ.new = none → ρ.Scopes marks scopes scopes' →
    ρ.Scopes (marked :: marks) (scope :: scopes) (scope.rekey (ρ.name marked) :: scopes')

section Scopes

variable {ρ : Renaming} {marks : Marks} {scopes scopes' : List Scope} {name : String}

theorem Renaming.nameAt_eq (ρ : Renaming) (marks : Marks) (distance? : Option Nat) (name : String) :
    ∃ marked, ρ.nameAt marks distance? name = ρ.name marked name := by
  cases distance? with
  | none => exact ⟨false, rfl⟩
  | some distance => exact ⟨_, rfl⟩

/-- A name that is not in a scope is not in it under the other name either, for the new one is in no scope. -/
theorem get?_exchanged {scope : Scope} (lacks : scope.get? ρ.new = none) (other : name ≠ ρ.new)
    (missing : scope.get? name = none) (marked marked' : Bool) :
    (scope.rekey (ρ.name marked)).get? (ρ.name marked' name) = none := by
  have back : ρ.name marked' name = ρ.name marked (ρ.name marked (ρ.name marked' name)) :=
    (ρ.name_name _ _).symm
  rw [back, Table.get?_rekey fun _ _ => ρ.name_injective marked]
  by_cases old : name = ρ.old
  · subst old
    cases marked <;> cases marked' <;> simp [ρ.name_old, ρ.name_new, missing, lacks]
  · rw [ρ.name_other old other, ρ.name_other old other]
    exact missing

theorem get?_nearest {scope : Scope} (marks : Marks) (lacks : scope.get? ρ.new = none) (other : name ≠ ρ.new) (marked : Bool)
    (distance? : Option Nat) :
    let distance? := if scope.has name then some 0 else distance?.map (· + 1)
    (scope.rekey (ρ.name marked)).get? (ρ.nameAt (marked :: marks) distance? name) = scope.get? name := by
  intro distance?
  cases found : scope.get? name with
  | some known =>
    have near : distance? = some 0 := if_pos (by rw [Table.has, found]; rfl)
    rw [near, ← found]
    exact Table.get?_rekey (fun _ _ => ρ.name_injective marked) name scope
  | none =>
    obtain ⟨marked', same⟩ := ρ.nameAt_eq (marked :: marks) distance? name
    rw [same]
    exact get?_exchanged lacks other found marked marked'

/-- Behind the innermost scope a name is what it is from there, unless it is in that scope. -/
theorem Renaming.nameAt_behind (ρ : Renaming) (marked : Bool) (marks : Marks) (distance? : Option Nat)
    (name : String) : ρ.nameAt (marked :: marks) (distance?.map (· + 1)) name = ρ.nameAt marks distance? name := by
  cases distance? <;> rfl

/-- A name is found as far out. -/
theorem Renaming.Scopes.findIdx (mirrored : ρ.Scopes marks scopes scopes') (other : name ≠ ρ.new) :
    scopes'.findIdx? (·.has (ρ.nameAt marks (scopes.findIdx? (·.has name)) name)) =
      scopes.findIdx? (·.has name) := by
  induction mirrored with
  | nil => rfl
  | @cons marks scopes scopes' marked scope lacks _ ih =>
    have nearest := get?_nearest marks lacks other marked (scopes.findIdx? (·.has name))
    rw [List.findIdx?_cons]
    rw [List.findIdx?_cons]
    by_cases here : scope.has name
    · rw [if_pos here] at nearest ⊢
      have same : Table.has _ _ = scope.has name := congrArg Option.isSome nearest
      rw [if_pos (same.trans here)]
    · rw [if_neg here] at nearest ⊢
      have same : Table.has _ _ = scope.has name := congrArg Option.isSome nearest
      rw [if_neg fun h => here (same.symm.trans h), ρ.nameAt_behind, ih]

/-- A name is known in the innermost scope as far as it was. -/
theorem Renaming.Scopes.head (mirrored : ρ.Scopes marks scopes scopes') (other : name ≠ ρ.new) :
    scopes'.head?.bind (·.get? (ρ.nameAt marks (scopes.findIdx? (·.has name)) name)) =
      scopes.head?.bind (·.get? name) := by
  cases mirrored with
  | nil => rfl
  | @cons marks scopes scopes' marked scope lacks _ =>
    have nearest := get?_nearest marks lacks other marked (scopes.findIdx? (·.has name))
    rw [List.findIdx?_cons]
    exact nearest

end Scopes

/-! ### Walks side by side -/

/-- Two walks at the same place, of which the second one is over a program with the names exchanged. -/
structure Resolution.Mirrored (ρ : Renaming) (marks : Marks) (r r' : Resolution) : Prop where
  scopes : ρ.Scopes marks r.scopes r'.scopes
  distances : r'.distances = r.distances
  diagnostics : r'.diagnostics = r.diagnostics
  functionKind : r'.functionKind = r.functionKind
  classKind : r'.classKind = r.classKind

namespace Resolution.Mirrored

variable {ρ : Renaming} {marks : Marks} {r r' : Resolution} {name : String}

theorem report (mirrored : r.Mirrored ρ marks r') (line : Nat) (error : StaticError) :
    (r.report line error).Mirrored ρ marks (r'.report line error) := by
  refine { mirrored with diagnostics := ?_ }
  rw [Resolution.report, Resolution.report, mirrored.diagnostics]

theorem setName (mirrored : r.Mirrored ρ marks r') (other : name ≠ ρ.new) (known : Bool) :
    (r.setName name known).Mirrored ρ marks (r'.setName (ρ.name (marks.headD false) name) known) := by
  have scopes := mirrored.scopes
  unfold Resolution.setName
  match found : r.scopes, found' : r'.scopes, marks with
  | [], [], [] => exact mirrored
  | scope :: outer, scope' :: outer', marked :: marks =>
    rw [found, found'] at scopes
    cases scopes with
    | cons _ _ lacks behind =>
      refine { mirrored with scopes := ?_ }
      change ρ.Scopes _ _ (Table.put (ρ.name marked name) known _ :: _)
      rw [Table.put_rekey fun _ _ => ρ.name_injective marked]
      refine .cons marked _ ?_ behind
      rw [Table.get?_put_of_ne other.symm]
      exact lacks
  | [], _ :: _, _ | _ :: _, [], _ | [], [], _ :: _ | _ :: _, _ :: _, [] =>
    rw [found, found'] at scopes
    cases scopes

theorem declares (mirrored : r.Mirrored ρ marks r') (name : String) :
    r'.declares (ρ.name (marks.headD false) name) = r.declares name := by
  have scopes := mirrored.scopes
  unfold Resolution.declares
  revert scopes
  cases r.scopes <;> cases r'.scopes <;> intro scopes <;> cases scopes
  · rfl
  · exact congrArg Option.isSome (Table.get?_rekey (fun _ _ => ρ.name_injective _) name _)

/-- A name is declared as the other one; without an error none is in its message. -/
theorem declare (mirrored : r.Mirrored ρ marks r') (other : name ≠ ρ.new) {line : Nat}
    (clean : (r.declare name line).diagnostics = []) :
    (r.declare name line).Mirrored ρ marks (r'.declare (ρ.name (marks.headD false) name) line) := by
  have once : r.declares name = false := by
    cases twice : r.declares name with
    | false => rfl
    | true => simp [Resolution.declare, twice, Resolution.report] at clean
  unfold Resolution.declare
  rw [mirrored.declares, once]
  exact mirrored.setName other false

/-- A name that is looked up under the distance that it has is found there. -/
theorem refer (mirrored : r.Mirrored ρ marks r') (other : name ≠ ρ.new) (id : Nat) :
    (r.refer id name).Mirrored ρ marks
      (r'.refer id (ρ.nameAt marks (r.scopes.findIdx? (·.has name)) name)) := by
  unfold Resolution.refer
  rw [mirrored.scopes.findIdx other]
  cases r.scopes.findIdx? (·.has name) with
  | none => exact mirrored
  | some distance =>
    refine { mirrored with distances := ?_ }
    rw [mirrored.distances]

end Resolution.Mirrored

/-- What two walks do over a phrase with some ids and over the same one with the names exchanged. Where the first
one finds no error and the distances that the names go by, they stay at the same place. -/
structure Mirrors (ρ : Renaming) (d : Distances) (marks marks' : Marks) (r r₁ r' r₁' : Resolution)
    (ids : List Nat) : Prop where
  kept : r.diagnostics <+: r₁.diagnostics
  others : ∀ id, id ∉ ids → r₁.distances.get? id = r.distances.get? id
  mirrored : r₁.diagnostics = [] → ids.Nodup → (∀ id ∈ ids, r.distances.get? id = none) →
    (∀ id ∈ ids, d.get? id = r₁.distances.get? id) → r.Mirrored ρ marks r' → r₁.Mirrored ρ marks' r₁'

namespace Mirrors

variable {ρ : Renaming} {d : Distances} {marks marks₁ marks₂ : Marks} {r r₁ r₂ r' r₁' r₂' : Resolution}
variable {as bs : List Nat}

theorem clean (mirrors : Mirrors ρ d marks marks₁ r r₁ r' r₁' as) (clean : r₁.diagnostics = []) :
    r.diagnostics = [] :=
  List.prefix_nil.mp (clean ▸ mirrors.kept)

/-- A step that finds no distance and no error. -/
theorem quiet (diagnostics : r₁.diagnostics = r.diagnostics) (distances : r₁.distances = r.distances)
    (mirrored : r.Mirrored ρ marks r' → r₁.Mirrored ρ marks₁ r₁') : Mirrors ρ d marks marks₁ r r₁ r' r₁' [] :=
  ⟨diagnostics ▸ List.prefix_refl _, fun _ _ => by rw [distances], fun _ _ _ _ before => mirrored before⟩

theorem refl (r r' : Resolution) : Mirrors ρ d marks marks r r r' r' [] :=
  .quiet rfl rfl id

theorem append (first : Mirrors ρ d marks marks₁ r r₁ r' r₁' as)
    (second : Mirrors ρ d marks₁ marks₂ r₁ r₂ r₁' r₂' bs) : Mirrors ρ d marks marks₂ r r₂ r' r₂' (as ++ bs) := by
  refine ⟨first.kept.trans second.kept, fun id outside => ?_, fun clean distinct unused agrees before => ?_⟩
  · rw [List.mem_append, not_or] at outside
    rw [second.others id outside.2, first.others id outside.1]
  · obtain ⟨distinct₁, distinct₂, apart⟩ := List.nodup_append.mp distinct
    have between : r₁.Mirrored ρ marks₁ r₁' := by
      refine first.mirrored (second.clean clean) distinct₁
        (fun id inside => unused id (List.mem_append_left _ inside)) (fun id inside => ?_) before
      rw [agrees id (List.mem_append_left _ inside)]
      exact second.others id fun behind => apart id inside id behind rfl
    refine second.mirrored clean distinct₂ (fun id inside => ?_)
      (fun id inside => agrees id (List.mem_append_right _ inside)) between
    rw [first.others id fun front => apart id front id inside rfl]
    exact unused id (List.mem_append_right _ inside)

theorem andThen (first : Mirrors ρ d marks marks₁ r r₁ r' r₁' as)
    (second : Mirrors ρ d marks₁ marks₂ r₁ r₂ r₁' r₂' []) : Mirrors ρ d marks marks₂ r r₂ r' r₂' as := by
  have both := first.append second
  rwa [List.append_nil] at both

theorem perm (mirrors : Mirrors ρ d marks marks₁ r r₁ r' r₁' as) (same : as.Perm bs) :
    Mirrors ρ d marks marks₁ r r₁ r' r₁' bs := by
  refine ⟨mirrors.kept, fun id outside => mirrors.others id fun inside => outside (same.mem_iff.mp inside),
    fun clean distinct unused agrees before => ?_⟩
  exact mirrors.mirrored clean (same.nodup_iff.mpr distinct) (fun id inside => unused id (same.mem_iff.mp inside))
    (fun id inside => agrees id (same.mem_iff.mp inside)) before

/-! ### Steps of the walk -/

theorem openScope (r r' : Resolution) (own : Bool) :
    Mirrors ρ d marks (own :: marks) r r.openScope r' r'.openScope [] :=
  .quiet rfl rfl fun before => { before with scopes := .cons own [] rfl before.scopes }

theorem closeScope {own : Bool} (r r' : Resolution) :
    Mirrors ρ d (own :: marks) marks r r.closeScope r' r'.closeScope [] := by
  refine .quiet rfl rfl fun before => { before with scopes := ?_ }
  have scopes := before.scopes
  unfold Resolution.closeScope
  revert scopes
  cases r.scopes <;> cases r'.scopes <;> intro scopes <;> cases scopes
  assumption

theorem withFunctionKind (r r' : Resolution) (kind : FunctionKind) :
    Mirrors ρ d marks marks r { r with functionKind := kind } r' { r' with functionKind := kind } [] :=
  .quiet rfl rfl fun before => { before with functionKind := rfl }

theorem withClassKind (r r' : Resolution) (kind : ClassKind) :
    Mirrors ρ d marks marks r { r with classKind := kind } r' { r' with classKind := kind } [] :=
  .quiet rfl rfl fun before => { before with classKind := rfl }

theorem define (r r' : Resolution) {name : String} (other : name ≠ ρ.new) :
    Mirrors ρ d marks marks r (r.define name) r' (r'.define (ρ.name (marks.headD false) name)) [] :=
  .quiet (define_diagnostics r name) (setName_distances r name true) fun before => before.setName other true

theorem declare (r r' : Resolution) {name : String} (other : name ≠ ρ.new) (line : Nat) :
    Mirrors ρ d marks marks r (r.declare name line) r' (r'.declare (ρ.name (marks.headD false) name) line) [] :=
  ⟨declare_keeps r name line, fun _ _ => by rw [declare_distances],
    fun clean _ _ _ before => before.declare other clean⟩

theorem report (r r' : Resolution) (line : Nat) (error : StaticError) (ids : List Nat) :
    Mirrors ρ d marks marks r (r.report line error) r' r₁' ids :=
  ⟨List.prefix_append _ _, fun _ _ => rfl, fun clean => by simp [Resolution.report] at clean⟩

theorem refer (r r' : Resolution) {name : String} (other : name ≠ ρ.new) (id : Nat) :
    Mirrors ρ d marks marks r (r.refer id name) r' (r'.refer id (ρ.nameAt marks (d.get? id) name)) [id] := by
  have walked := walked_refer (r := r) ⟨id, name, true⟩ (by simp)
  refine ⟨walked.diagnostics, walked.others, fun clean distinct unused agrees before => ?_⟩
  -- The distance that the walk finds is the one that the name goes by.
  obtain ⟨-, found⟩ := walked.refers clean distinct unused _ List.mem_cons_self
  rw [agrees id List.mem_cons_self, found]
  exact before.refer other id

theorem read (r r' : Resolution) (use : Use) (other : use.name ≠ ρ.new) :
    Mirrors ρ d marks marks r (r.read use) r' (r'.read (use.rename ρ d marks)) [use.id] := by
  have walked := walked_read (r := r) use
  refine ⟨walked.diagnostics, walked.others, fun clean distinct unused agrees before => ?_⟩
  obtain ⟨-, distance⟩ := walked.refers clean distinct unused _ List.mem_cons_self
  have known : r.scopes.head?.bind (·.get? use.name) ≠ some false := by
    intro own
    rw [Resolution.read, if_pos own] at clean
    have failed := (walked_refer ⟨use.id, use.name, true⟩ (by simp)).clean clean
    simp [Resolution.report] at failed
  have name : (use.rename ρ d marks).name = ρ.nameAt marks (r.scopes.findIdx? (·.has use.name)) use.name := by
    rw [Use.rename, agrees use.id List.mem_cons_self, distance]
  rw [Resolution.read, if_neg known, Resolution.read, name, before.scopes.head other, if_neg known]
  exact before.refer other use.id

end Mirrors

/-! ### Expressions -/

theorem absent_of_more {ρ : Renaming} : ∀ {es : List Expr}, ρ.Absent (Expr.moreTokens es) →
    ∀ e ∈ es, ρ.Absent e.tokens
  | [], _ => by simp
  | e :: es, absent => by
    simp [Renaming.Absent, Expr.moreTokens] at absent
    exact List.forall_mem_cons.mpr ⟨absent.1, absent_of_more absent.2⟩

theorem absent_of_items {ρ : Renaming} : ∀ {es : List Expr}, ρ.Absent (Expr.itemTokens es) →
    ∀ e ∈ es, ρ.Absent e.tokens
  | [], _ => by simp
  | e :: es, absent => by
    simp [Renaming.Absent, Expr.itemTokens] at absent
    exact List.forall_mem_cons.mpr ⟨absent.1, absent_of_more absent.2⟩

section Walks

variable {ρ : Renaming} {d : Distances}

mutual

theorem Expr.mirrors : ∀ (e : Expr) (marks : Marks) (r r' : Resolution), ρ.Absent e.tokens →
    Mirrors ρ d marks marks r (e.resolve r) r' ((e.rename ρ d marks).resolve r') (referenceIds e.references)
  | .literal _, marks, r, r', _ => .refl r r'
  | .group inner, marks, r, r', absent => by
    simp [Renaming.Absent, Expr.tokens] at absent
    exact inner.mirrors marks r r' absent
  | .unary _ operand _, marks, r, r', absent => by
    simp [Renaming.Absent, Expr.tokens] at absent
    exact operand.mirrors marks r r' absent.2
  | .binary _ left right _, marks, r, r', absent => by
    simp [Renaming.Absent, Expr.tokens] at absent
    rw [Expr.references, referenceIds_append]
    exact (left.mirrors marks r r' absent.1).append (right.mirrors marks _ _ absent.2.2)
  | .conditional test consequent alternative, marks, r, r', absent => by
    simp [Renaming.Absent, Expr.tokens] at absent
    rw [Expr.references, referenceIds_append, referenceIds_append]
    exact (test.mirrors marks r r' absent.1).append
      ((consequent.mirrors marks _ _ absent.2.1).append (alternative.mirrors marks _ _ absent.2.2))
  | .var use, marks, r, r', absent => by
    simp [Renaming.Absent, Expr.tokens] at absent
    exact .read r r' use (Ne.symm absent)
  | .assign target value, marks, r, r', absent => by
    simp [Renaming.Absent, Expr.tokens] at absent
    exact ((value.mirrors marks r r' absent.2).append (.refer _ _ (Ne.symm absent.1) target.id)).perm
      List.perm_append_comm
  | .thisRef id line, marks, r, r', _ => by
    have walked := (Expr.thisRef id line).walked r
    refine ⟨walked.diagnostics, walked.others, fun _ _ _ _ before => ?_⟩
    have refers := before.refer ρ.this_ne_new id
    rw [ρ.nameAt_this] at refers
    rw [Expr.rename, Expr.resolve, Expr.resolve, before.classKind]
    split
    · exact before.report line .thisOutsideClass
    · exact refers
  | .superRef id method line, marks, r, r', _ => by
    have walked := (Expr.superRef id method line).walked r
    refine ⟨walked.diagnostics, walked.others, fun _ _ _ _ before => ?_⟩
    have refers := before.refer ρ.super_ne_new id
    rw [ρ.nameAt_super] at refers
    rw [Expr.rename, Expr.resolve, Expr.resolve, before.classKind]
    split
    · exact refers
    · exact before.report line .superOutsideSubclass
  | .call callee arguments _, marks, r, r', absent => by
    simp [Renaming.Absent, Expr.tokens] at absent
    rw [Expr.references, referenceIds_append]
    exact (callee.mirrors marks r r' absent.1).append
      (Expr.mirrorsAll arguments marks _ _ (absent_of_items absent.2))
  | .field object _ _, marks, r, r', absent => by
    simp [Renaming.Absent, Expr.tokens] at absent
    exact object.mirrors marks r r' absent.1
  | .setField object _ value _, marks, r, r', absent => by
    simp [Renaming.Absent, Expr.tokens] at absent
    rw [Expr.references, referenceIds_append]
    exact ((value.mirrors marks r r' absent.2.2).append (object.mirrors marks _ _ absent.1)).perm
      List.perm_append_comm
  | .array elements, marks, r, r', absent => by
    simp [Renaming.Absent, Expr.tokens] at absent
    exact Expr.mirrorsAll elements marks r r' (absent_of_items absent)
  | .element sequence index _, marks, r, r', absent => by
    simp [Renaming.Absent, Expr.tokens] at absent
    rw [Expr.references, referenceIds_append]
    exact (sequence.mirrors marks r r' absent.1).append (index.mirrors marks _ _ absent.2)
  | .setElement sequence index value _, marks, r, r', absent => by
    simp [Renaming.Absent, Expr.tokens] at absent
    rw [Expr.references, referenceIds_append, referenceIds_append]
    have mirrors := (value.mirrors marks r r' absent.2.2).append
      ((sequence.mirrors marks _ _ absent.1).append (index.mirrors marks _ _ absent.2.1))
    refine mirrors.perm (List.perm_append_comm.trans ?_)
    rw [List.append_assoc]

theorem Expr.mirrorsAll : ∀ (es : List Expr) (marks : Marks) (r r' : Resolution), (∀ e ∈ es, ρ.Absent e.tokens) →
    Mirrors ρ d marks marks r (Expr.resolveAll es r) r' (Expr.resolveAll (Expr.renameAll ρ d marks es) r')
      (referenceIds (Expr.referencesAll es))
  | [], marks, r, r', _ => .refl r r'
  | e :: es, marks, r, r', absent => by
    obtain ⟨first, others⟩ := List.forall_mem_cons.mp absent
    rw [Expr.referencesAll, referenceIds_append]
    exact (e.mirrors marks r r' first).append (Expr.mirrorsAll es marks _ _ others)

end

theorem Expr.mirrorsOpt (e? : Option Expr) (marks : Marks) (r r' : Resolution) (absent : ρ.Absent (Expr.optTokens e?)) :
    Mirrors ρ d marks marks r (Expr.resolveOpt e? r) r' (Expr.resolveOpt (e?.map (Expr.rename ρ d marks)) r')
      (referenceIds (Expr.referencesOpt e?)) := by
  cases e? with
  | none => exact .refl r r'
  | some e =>
    rw [Expr.referencesOpt_some]
    exact e.mirrors marks r r' absent

variable {marks : Marks}

/-- The clauses of a loop. -/
theorem clauses_mirrors (test? step? : Option Expr) (r r' : Resolution) (absent : ρ.Absent (Expr.optTokens test?))
    (absent' : ρ.Absent (Expr.optTokens step?)) :
    Mirrors ρ d marks marks r (Expr.resolveOpt step? (Expr.resolveOpt test? r)) r'
      (Expr.resolveOpt (step?.map (Expr.rename ρ d marks)) (Expr.resolveOpt (test?.map (Expr.rename ρ d marks)) r'))
      (referenceIds (Expr.referencesOpt test? ++ Expr.referencesOpt step?)) := by
  rw [referenceIds_append]
  exact (Expr.mirrorsOpt test? marks r r' absent).append (Expr.mirrorsOpt step? marks _ _ absent')

/-! ### Declarations -/

theorem declareParams_mirrors (params : List String) (line : Nat) (own : Bool) (r r' : Resolution)
    (absent : ∀ name ∈ params, name ≠ ρ.new) :
    Mirrors ρ d (own :: marks) (own :: marks) r (declareParams params line r) r'
      (declareParams (params.map (ρ.name own)) line r') [] := by
  unfold declareParams
  induction params generalizing r r' with
  | nil => exact .refl r r'
  | cons name params ih =>
    obtain ⟨other, absent⟩ := List.forall_mem_cons.mp absent
    have declared : Mirrors ρ d (own :: marks) (own :: marks) r (r.declare name line) r' _ [] :=
      .declare r r' other line
    exact declared.andThen (Mirrors.andThen (.define _ _ other) (ih _ _ absent))

theorem resolveReturn_mirrors (value? : Option Expr) (line : Nat) (r r' : Resolution)
    (absent : ρ.Absent (Expr.optTokens value?)) :
    Mirrors ρ d marks marks r (resolveReturn value? line r) r'
      (resolveReturn (value?.map (Expr.rename ρ d marks)) line r') (referenceIds (Expr.referencesOpt value?)) := by
  cases value? with
  | none => exact .refl r r'
  | some value =>
    rw [Expr.referencesOpt_some]
    have walked := walked_return (some value) line r
    rw [Expr.referencesOpt_some] at walked
    refine ⟨walked.diagnostics, walked.others, fun clean distinct unused agrees before => ?_⟩
    have plain : r.functionKind ≠ .initializer := by
      intro initializer
      rw [resolveReturn, if_pos initializer] at clean
      have reported := (value.walked _).clean clean
      simp [Resolution.report] at reported
    rw [resolveReturn, if_neg plain] at clean agrees ⊢
    rw [Option.map_some, resolveReturn, before.functionKind, if_neg plain]
    exact (value.mirrors marks r r' absent).mirrored clean distinct unused agrees before

/-- A scope that binds nothing but a word of the language. -/
theorem binding_mirrors (r r' : Resolution) {name : String} (other : name ≠ ρ.new) :
    Mirrors ρ d marks (false :: marks) r (r.openScope.define name) r' (r'.openScope.define name) [] :=
  (Mirrors.openScope r r' false).andThen (.define r.openScope r'.openScope other)

theorem declared_mirrors (r r' : Resolution) {name : String} (other : name ≠ ρ.new)
    (kept : ρ.name (marks.headD false) name = name) (line : Nat) :
    Mirrors ρ d marks marks r ((r.declare name line).define name) r' ((r'.declare name line).define name) [] := by
  have declared : Mirrors ρ d marks marks r (r.declare name line) r' _ [] := .declare r r' other line
  have both := declared.andThen (.define _ _ other)
  rwa [kept] at both

theorem nameAt_ne {use name : String} (other : name ≠ ρ.new) (absent : use ≠ ρ.new) (apart : use ≠ name)
    (marks : Marks) (distance? : Option Nat) : ρ.nameAt marks distance? use ≠ name := by
  obtain ⟨marked, same⟩ := ρ.nameAt_eq marks distance? use
  rw [same]
  by_cases old : use = ρ.old
  · subst old
    cases marked with
    | false => exact apart
    | true =>
      rw [ρ.name_old]
      exact other.symm
  · rw [ρ.name_other old absent]
    exact apart

/-- Without an error the superclass is not the class itself, under no name. -/
theorem superclass_mirrors (r r' : Resolution) {name : String} (use : Use) (other : name ≠ ρ.new)
    (absent : use.name ≠ ρ.new) :
    Mirrors ρ d marks marks r (if use.name = name then r.report use.line .inheritFromSelf else r) r'
      (if (use.rename ρ d marks).name = name then r'.report use.line .inheritFromSelf else r') [] := by
  by_cases same : use.name = name
  · rw [if_pos same]
    exact .report _ _ _ _ _
  · have apart : (use.rename ρ d marks).name ≠ name := nameAt_ne other absent same marks _
    rw [if_neg same, if_neg apart]
    exact .refl r r'

theorem enterClass_mirrors (name : String) (superclass? : Option Use) (line : Nat) (r r' : Resolution)
    (other : name ≠ ρ.new) (kept : ρ.name (marks.headD false) name = name)
    (absent : ρ.Absent (superclassTokens superclass?)) :
    Mirrors ρ d marks (methodMarks superclass? marks) r (enterClass name superclass? line r) r'
      (enterClass name (superclass?.map (Use.rename ρ d marks)) line r')
      (referenceIds (superclassReferences superclass?)) := by
  have named : Mirrors ρ d marks marks r (({ r with classKind := .base }.declare name line).define name) r'
      (({ r' with classKind := .base }.declare name line).define name) [] :=
    (Mirrors.withClassKind r r' .base).andThen (declared_mirrors _ _ other kept line)
  cases superclass? with
  | none => exact named.andThen (binding_mirrors _ _ ρ.this_ne_new)
  | some use =>
    simp [superclassTokens, Renaming.Absent] at absent
    have checked := named.andThen (superclass_mirrors _ _ use other (Ne.symm absent))
    have derived := checked.andThen (.withClassKind _ _ .derived)
    have read := derived.append (.read _ _ use (Ne.symm absent))
    exact (read.andThen (binding_mirrors _ _ ρ.super_ne_new)).andThen (binding_mirrors _ _ ρ.this_ne_new)

theorem leaveClass_mirrors (superclass? : Option Use) (outer : ClassKind) (r r' : Resolution) :
    Mirrors ρ d (methodMarks superclass? marks) marks r (leaveClass superclass? outer r) r'
      (leaveClass (superclass?.map (Use.rename ρ d marks)) outer r') [] := by
  cases superclass? with
  | none => exact (Mirrors.closeScope r r').andThen (.withClassKind _ _ outer)
  | some use =>
    have left : Mirrors ρ d (false :: false :: marks) (false :: marks) r r.closeScope r' r'.closeScope [] :=
      .closeScope r r'
    exact (left.andThen (.closeScope _ _)).andThen (.withClassKind _ _ outer)

/-! ### Statements -/

theorem absent_of_moreParams : ∀ {params : List String}, ρ.Absent (moreParamTokens params) →
    ∀ name ∈ params, name ≠ ρ.new
  | [], _ => by simp
  | name :: params, absent => by
    simp [Renaming.Absent, moreParamTokens] at absent
    exact List.forall_mem_cons.mpr ⟨Ne.symm absent.1, absent_of_moreParams absent.2⟩

theorem absent_of_params : ∀ {params : List String}, ρ.Absent (paramTokens params) → ∀ name ∈ params, name ≠ ρ.new
  | [], _ => by simp
  | name :: params, absent => by
    simp [Renaming.Absent, paramTokens] at absent
    exact List.forall_mem_cons.mpr ⟨Ne.symm absent.1, absent_of_moreParams absent.2⟩

theorem FunctionDecl.Renamed.name {f f' : FunctionDecl} (renamed : f.Renamed ρ d marks f') : f'.name = f.name := by
  cases renamed
  rfl

theorem FunctionDecl.Renamed.line {f f' : FunctionDecl} (renamed : f.Renamed ρ d marks f') : f'.line = f.line := by
  cases renamed
  rfl

theorem FunctionDecl.absent_name {f : FunctionDecl} (absent : ρ.Absent f.tokens) : f.name ≠ ρ.new := by
  cases f
  simp [FunctionDecl.tokens, Renaming.Absent] at absent
  exact Ne.symm absent.1

mutual

theorem Stmt.mirrors : ∀ (s : Stmt) {s' : Stmt} {marks : Marks} (r r' : Resolution) (chain : List Place),
    s.Renamed ρ d marks s' → ρ.Absent s.tokens →
    Mirrors ρ d marks marks r (s.resolve r) r' (s'.resolve r') (siteIds (s.sites chain))
  | .expr value, _, marks, r, r', chain, .expr _, absent => by
    simp [Renaming.Absent, Stmt.tokens] at absent
    rw [Stmt.sites, siteIds_sitesIn]
    exact value.mirrors marks r r' absent
  | .print items line, _, marks, r, r', chain, .print _ _, absent => by
    simp [Renaming.Absent, Stmt.tokens] at absent
    rw [Stmt.sites, siteIds_sitesIn]
    exact Expr.mirrorsAll items marks r r' (absent_of_items absent)
  | .varDecl name initial? line, _, marks, r, r', chain, .varDecl _ _ _, absent => by
    have named : name ≠ ρ.new ∧ ρ.Absent (Expr.optTokens initial?) := by
      cases initial? <;> simp [Renaming.Absent, Stmt.tokens, Expr.optTokens] at absent ⊢
      · exact Ne.symm absent
      · exact ⟨Ne.symm absent.1, absent.2⟩
    rw [Stmt.sites, siteIds_sitesIn]
    have declared : Mirrors ρ d marks marks r (r.declare name line) r' _ [] := .declare r r' named.1 line
    exact (declared.append (Expr.mirrorsOpt initial? marks _ _ named.2)).andThen (.define _ _ named.1)
  | .block body, _, marks, r, r', chain, .block own inner, absent => by
    simp [Renaming.Absent, Stmt.tokens] at absent
    have opened : Mirrors ρ d marks (own :: marks) r r.openScope r' _ [] := .openScope r r' own
    exact (opened.append (Stmt.mirrorsAll body _ _ _ inner absent)).andThen (.closeScope _ _)
  | .ifElse test consequent none, _, marks, r, r', chain, .ifThen _ first, absent => by
    simp [Renaming.Absent, Stmt.tokens] at absent
    rw [Stmt.sites, siteIds_append, siteIds_sitesIn]
    exact (test.mirrors marks r r' absent.1).append (consequent.mirrors _ _ chain first absent.2)
  | .ifElse test consequent (some alternative), _, marks, r, r', chain, .ifElse _ first second, absent => by
    simp [Renaming.Absent, Stmt.tokens] at absent
    rw [Stmt.sites, siteIds_append, siteIds_append, siteIds_sitesIn]
    exact (test.mirrors marks r r' absent.1).append ((consequent.mirrors _ _ chain first absent.2.1).append
      (alternative.mirrors _ _ chain second absent.2.2))
  | .whileLoop test body, _, marks, r, r', chain, .whileLoop _ inner, absent => by
    simp [Renaming.Absent, Stmt.tokens] at absent
    rw [Stmt.sites, siteIds_append, siteIds_sitesIn]
    exact (test.mirrors marks r r' absent.1).append (body.mirrors _ _ chain inner absent.2)
  | .forLoop none test? step? body, _, marks, r, r', chain, .forLoop own _ _ inner, absent => by
    simp [Renaming.Absent, Stmt.tokens] at absent
    rw [Stmt.sites, siteIds_append, siteIds_sitesIn]
    have opened : Mirrors ρ d marks (own :: marks) r r.openScope r' _ [] := .openScope r r' own
    have conditions := opened.append (clauses_mirrors test? step? _ _ absent.1 absent.2.1)
    exact (conditions.append (body.mirrors _ _ _ inner absent.2.2)).andThen (.closeScope _ _)
  | .forLoop (some initial) test? step? body, _, marks, r, r', chain, .forFrom own _ _ first inner, absent => by
    simp [Renaming.Absent, Stmt.tokens] at absent
    rw [Stmt.sites, siteIds_append, siteIds_append, siteIds_sitesIn]
    let outer : List Place := ⟨.stmt (.forLoop (some initial) test? step? body), []⟩ :: chain
    have opened : Mirrors ρ d marks (own :: marks) r r.openScope r' _ [] := .openScope r r' own
    have started := opened.append (initial.mirrors _ _ outer first absent.1)
    have conditions := started.append (clauses_mirrors test? step? _ _ absent.2.1 absent.2.2.1)
    have whole := (conditions.append (body.mirrors _ _ (initial.after outer) inner absent.2.2.2)).andThen
      (.closeScope _ _)
    rwa [List.append_assoc, List.append_assoc] at whole
  | .breakLoop, _, _, r, r', _, .breakLoop, _ => .refl r r'
  | .continueLoop, _, _, r, r', _, .continueLoop, _ => .refl r r'
  | .funDecl decl, _, marks, r, r', chain, .funDecl kept inner, absent => by
    simp [Renaming.Absent, Stmt.tokens] at absent
    have declared := declared_mirrors (ρ := ρ) (d := d) r r' (FunctionDecl.absent_name absent) kept decl.line
    rw [Stmt.resolve, Stmt.resolve, inner.name, inner.line]
    exact declared.append (decl.mirrors .function _ _ _ inner absent)
  | .returnValue value? line, _, marks, r, r', chain, .returnValue _ _, absent => by
    simp [Renaming.Absent, Stmt.tokens] at absent
    rw [Stmt.sites, siteIds_sitesIn]
    exact resolveReturn_mirrors value? line r r' absent
  | .classDecl name superclass? methods line, _, marks, r, r', chain, .classDecl _ _ kept inner, absent => by
    simp [Renaming.Absent, Stmt.tokens] at absent
    obtain ⟨other, absent⟩ := absent
    rw [Stmt.sites, siteIds_append, siteIds_sitesIn]
    have entered := enterClass_mirrors (d := d) name superclass? line r r' (Ne.symm other) kept absent.1
    let inside := boundChain (.classDecl name superclass? methods line) name superclass? chain
    have whole := (entered.append (FunctionDecl.mirrorsAll methods _ _ inside inner absent.2)).andThen
      (leaveClass_mirrors superclass? r.classKind _ _)
    refine ⟨whole.kept, whole.others, fun clean distinct unused agrees before => ?_⟩
    rw [Stmt.resolve, Stmt.resolve, before.classKind]
    exact whole.mirrored clean distinct unused agrees before

theorem FunctionDecl.mirrors : ∀ (f : FunctionDecl) {f' : FunctionDecl} {marks : Marks} (kind : FunctionKind)
    (r r' : Resolution) (chain : List Place), f.Renamed ρ d marks f' → ρ.Absent f.tokens →
    Mirrors ρ d marks marks r (f.resolve kind r) r' (f'.resolve kind r') (siteIds (f.sites chain))
  | { name, params, body, line }, _, marks, kind, r, r', chain, .decl own _ _ _ inner, absent => by
    simp [Renaming.Absent, FunctionDecl.tokens] at absent
    have opened : Mirrors ρ d marks (own :: marks) r { r with functionKind := kind }.openScope r'
        { r' with functionKind := kind }.openScope [] := (Mirrors.withFunctionKind r r' kind).andThen (.openScope _ _ own)
    have entered := opened.andThen (declareParams_mirrors params line own _ _ (absent_of_params absent.2.1))
    let inside : List Place := ⟨.function ⟨name, params, body, line⟩, params⟩ :: chain
    have whole := (entered.append (Stmt.mirrorsAll body _ _ inside inner absent.2.2)).andThen (.closeScope _ _)
    refine ⟨whole.kept, whole.others, fun clean distinct unused agrees before => ?_⟩
    exact { whole.mirrored clean distinct unused agrees before with functionKind := before.functionKind }

theorem Stmt.mirrorsAll : ∀ (ss : List Stmt) {ss' : List Stmt} {marks : Marks} (r r' : Resolution)
    (chain : List Place), Stmt.RenamedAll ρ d marks ss ss' → ρ.Absent (Stmt.tokensAll ss) →
    Mirrors ρ d marks marks r (Stmt.resolveAll ss r) r' (Stmt.resolveAll ss' r') (siteIds (Stmt.sitesAll ss chain))
  | [], _, _, r, r', _, .nil, _ => .refl r r'
  | s :: ss, _, _, r, r', chain, .cons first others, absent => by
    simp [Renaming.Absent, Stmt.tokensAll] at absent
    rw [Stmt.sitesAll, siteIds_append]
    exact (s.mirrors r r' chain first absent.1).append (Stmt.mirrorsAll ss _ _ _ others absent.2)

theorem FunctionDecl.mirrorsAll : ∀ (fs : List FunctionDecl) {fs' : List FunctionDecl} {marks : Marks}
    (r r' : Resolution) (chain : List Place), FunctionDecl.RenamedAll ρ d marks fs fs' →
    ρ.Absent (FunctionDecl.tokensAll fs) → Mirrors ρ d marks marks r (FunctionDecl.resolveMethods fs r) r'
      (FunctionDecl.resolveMethods fs' r') (siteIds (FunctionDecl.sitesAll fs chain))
  | [], _, _, r, r', _, .nil, _ => .refl r r'
  | f :: fs, _, _, r, r', chain, .cons first others, absent => by
    simp [Renaming.Absent, FunctionDecl.tokensAll] at absent
    rw [FunctionDecl.sitesAll, siteIds_append, FunctionDecl.resolveMethods, FunctionDecl.resolveMethods, first.name]
    exact (f.mirrors (.ofMethod f.name) r r' chain first absent.1).append
      (FunctionDecl.mirrorsAll fs _ _ chain others absent.2)

end

/-- The walk over a program with the names exchanged finds no error either, and the same distances. -/
theorem resolve_mirrored {program program' : List Stmt} (renamed : Stmt.RenamedAll ρ d [] program program')
    (absent : ρ.Absent (Stmt.tokensAll program)) (clean : (resolve program).diagnostics = [])
    (distinct : (siteIds (Stmt.sitesAll program [])).Nodup)
    (known : ∀ id ∈ siteIds (Stmt.sitesAll program []), d.get? id = (resolve program).distances.get? id) :
    (resolve program').diagnostics = [] ∧ (resolve program').distances = (resolve program).distances := by
  have started : Resolution.Mirrored ρ [] .start .start := ⟨.nil, rfl, rfl, rfl, rfl⟩
  have mirrors := Stmt.mirrorsAll program .start .start [] renamed absent
  have mirrored := mirrors.mirrored clean distinct (fun _ _ => rfl) known started
  exact ⟨mirrored.diagnostics.trans clean, mirrored.distances⟩

end Walks

end Lox
