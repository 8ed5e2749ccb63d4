import Lox.Proofs.Scope.Ids
import Lox.Syntax.Polish

/-!
Other ids, lines and names in a tree. Two changes in a row are one, what changes nothing leaves a tree as
it is, and Polish forms show names only.
-/

namespace Lox

structure Relabeling where
  id : Nat → Nat
  line : Nat → Nat
  name : String → String

/-! ### Trees -/

section Trees

variable (φ : Relabeling)

def Use.relabel (use : Use) : Use :=
  ⟨φ.id use.id, φ.name use.name, φ.line use.line⟩

mutual

def Expr.relabel : Expr → Expr
  | .literal value => .literal value
  | .group inner => .group inner.relabel
  | .unary op operand line => .unary op operand.relabel (φ.line line)
  | .binary op left right line => .binary op left.relabel right.relabel (φ.line line)
  | .conditional test consequent alternative =>
    .conditional test.relabel consequent.relabel alternative.relabel
  | .var use => .var (use.relabel φ)
  | .assign target value => .assign (target.relabel φ) value.relabel
  | .thisRef id line => .thisRef (φ.id id) (φ.line line)
  | .superRef id method line => .superRef (φ.id id) (φ.name method) (φ.line line)
  | .call callee arguments line => .call callee.relabel (Expr.relabelAll arguments) (φ.line line)
  | .field object name line => .field object.relabel (φ.name name) (φ.line line)
  | .setField object name value line =>
    .setField object.relabel (φ.name name) value.relabel (φ.line line)
  | .array elements => .array (Expr.relabelAll elements)
  | .element sequence index line => .element sequence.relabel index.relabel (φ.line line)
  | .setElement sequence index value line =>
    .setElement sequence.relabel index.relabel value.relabel (φ.line line)

def Expr.relabelAll : List Expr → List Expr
  | [] => []
  | e :: es => e.relabel :: Expr.relabelAll es

end

mutual

def Stmt.relabel : Stmt → Stmt
  | .expr value => .expr (value.relabel φ)
  | .print items line => .print (Expr.relabelAll φ items) (φ.line line)
  | .varDecl name initial? line => .varDecl (φ.name name) (initial?.map (Expr.relabel φ)) (φ.line line)
  | .block body => .block (Stmt.relabelAll body)
  | .ifElse test consequent none => .ifElse (test.relabel φ) consequent.relabel none
  | .ifElse test consequent (some alternative) =>
    .ifElse (test.relabel φ) consequent.relabel (some alternative.relabel)
  | .whileLoop test body => .whileLoop (test.relabel φ) body.relabel
  | .forLoop none test? step? body =>
    .forLoop none (test?.map (Expr.relabel φ)) (step?.map (Expr.relabel φ)) body.relabel
  | .forLoop (some initial) test? step? body =>
    .forLoop (some initial.relabel) (test?.map (Expr.relabel φ)) (step?.map (Expr.relabel φ)) body.relabel
  | .breakLoop => .breakLoop
  | .continueLoop => .continueLoop
  | .funDecl decl => .funDecl decl.relabel
  | .returnValue value? line => .returnValue (value?.map (Expr.relabel φ)) (φ.line line)
  | .classDecl name superclass? methods line =>
    .classDecl (φ.name name) (superclass?.map (Use.relabel φ)) (FunctionDecl.relabelAll methods) (φ.line line)

def FunctionDecl.relabel : FunctionDecl → FunctionDecl
  | { name, params, body, line } =>
    ⟨φ.name name, params.map φ.name, Stmt.relabelAll body, φ.line line⟩

def Stmt.relabelAll : List Stmt → List Stmt
  | [] => []
  | s :: ss => s.relabel :: Stmt.relabelAll ss

def FunctionDecl.relabelAll : List FunctionDecl → List FunctionDecl
  | [] => []
  | f :: fs => f.relabel :: FunctionDecl.relabelAll fs

end

theorem Stmt.ifElse_relabel (test : Expr) (consequent : Stmt) (alternative? : Option Stmt) :
    (Stmt.ifElse test consequent alternative?).relabel φ =
      .ifElse (test.relabel φ) (consequent.relabel φ) (alternative?.map (Stmt.relabel φ)) := by
  cases alternative? <;> rfl

theorem Stmt.forLoop_relabel (initial? : Option Stmt) (test? step? : Option Expr) (body : Stmt) :
    (Stmt.forLoop initial? test? step? body).relabel φ =
      .forLoop (initial?.map (Stmt.relabel φ)) (test?.map (Expr.relabel φ)) (step?.map (Expr.relabel φ))
        (body.relabel φ) := by
  cases initial? <;> rfl

theorem FunctionDecl.relabel_name (f : FunctionDecl) : (f.relabel φ).name = φ.name f.name := by
  cases f
  rfl

theorem FunctionDecl.relabel_line (f : FunctionDecl) : (f.relabel φ).line = φ.line f.line := by
  cases f
  rfl

end Trees

/-! ### Changes in a row -/

/-- Ids that are so many further on. -/
def Relabeling.shift (count : Nat) : Relabeling :=
  ⟨(· + count), fun line => line, fun name => name⟩

def Relabeling.lines (f : Nat → Nat) : Relabeling :=
  ⟨fun id => id, f, fun name => name⟩

def Relabeling.unchanged : Relabeling :=
  ⟨fun id => id, fun line => line, fun name => name⟩

@[simp] theorem Relabeling.unchanged_line (line : Nat) : unchanged.line line = line := rfl

@[simp] theorem Relabeling.unchanged_name (name : String) : unchanged.name name = name := rfl

theorem Use.relabel_unchanged (use : Use) : use.relabel .unchanged = use := rfl

mutual

theorem Expr.relabel_unchanged : ∀ e : Expr, e.relabel .unchanged = e
  | .literal _ => rfl
  | .group inner => by simp [Expr.relabel, inner.relabel_unchanged]
  | .unary _ operand _ => by simp [Expr.relabel, operand.relabel_unchanged]
  | .binary _ left right _ => by simp [Expr.relabel, left.relabel_unchanged, right.relabel_unchanged]
  | .conditional test consequent alternative => by
    simp [Expr.relabel, test.relabel_unchanged, consequent.relabel_unchanged, alternative.relabel_unchanged]
  | .var _ => rfl
  | .assign _ value => by simp [Expr.relabel, Use.relabel_unchanged, value.relabel_unchanged]
  | .thisRef _ _ => rfl
  | .superRef _ _ _ => rfl
  | .call callee arguments _ => by
    simp [Expr.relabel, callee.relabel_unchanged, Expr.relabelAll_unchanged arguments]
  | .field object _ _ => by simp [Expr.relabel, object.relabel_unchanged]
  | .setField object _ value _ => by simp [Expr.relabel, object.relabel_unchanged, value.relabel_unchanged]
  | .array elements => by simp [Expr.relabel, Expr.relabelAll_unchanged elements]
  | .element sequence index _ => by simp [Expr.relabel, sequence.relabel_unchanged, index.relabel_unchanged]
  | .setElement sequence index value _ => by
    simp [Expr.relabel, sequence.relabel_unchanged, index.relabel_unchanged, value.relabel_unchanged]

theorem Expr.relabelAll_unchanged : ∀ es : List Expr, Expr.relabelAll .unchanged es = es
  | [] => rfl
  | e :: es => by simp [Expr.relabelAll, e.relabel_unchanged, Expr.relabelAll_unchanged es]

end

theorem Expr.relabelOpt_unchanged (e? : Option Expr) : e?.map (Expr.relabel .unchanged) = e? := by
  cases e? with
  | none => rfl
  | some e => simp [e.relabel_unchanged]

mutual

theorem Stmt.relabel_unchanged : ∀ s : Stmt, s.relabel .unchanged = s
  | .expr value => by simp [Stmt.relabel, value.relabel_unchanged]
  | .print items _ => by simp [Stmt.relabel, Expr.relabelAll_unchanged items]
  | .varDecl _ initial? _ => by
    simp only [Stmt.relabel, Expr.relabelOpt_unchanged initial?, Relabeling.unchanged_line,
      Relabeling.unchanged_name]
  | .block body => by simp [Stmt.relabel, Stmt.relabelAll_unchanged body]
  | .ifElse test consequent none => by
    simp [Stmt.relabel, test.relabel_unchanged, consequent.relabel_unchanged]
  | .ifElse test consequent (some alternative) => by
    simp [Stmt.relabel, test.relabel_unchanged, consequent.relabel_unchanged, alternative.relabel_unchanged]
  | .whileLoop test body => by simp [Stmt.relabel, test.relabel_unchanged, body.relabel_unchanged]
  | .forLoop none test? step? body => by
    simp only [Stmt.relabel, Expr.relabelOpt_unchanged test?, Expr.relabelOpt_unchanged step?,
      body.relabel_unchanged]
  | .forLoop (some initial) test? step? body => by
    simp only [Stmt.relabel, initial.relabel_unchanged, Expr.relabelOpt_unchanged test?,
      Expr.relabelOpt_unchanged step?, body.relabel_unchanged]
  | .breakLoop => rfl
  | .continueLoop => rfl
  | .funDecl decl => by simp [Stmt.relabel, decl.relabel_unchanged]
  | .returnValue value? _ => by simp only [Stmt.relabel, Expr.relabelOpt_unchanged value?, Relabeling.unchanged_line]
  | .classDecl _ superclass? methods _ => by
    have above : superclass?.map (Use.relabel .unchanged) = superclass? := by cases superclass? <;> rfl
    simp only [Stmt.relabel, above, FunctionDecl.relabelAll_unchanged methods, Relabeling.unchanged_line,
      Relabeling.unchanged_name]

theorem FunctionDecl.relabel_unchanged : ∀ f : FunctionDecl, f.relabel .unchanged = f
  | { name, params, body, line } => by
    rw [FunctionDecl.relabel, Stmt.relabelAll_unchanged body]
    simp [Relabeling.unchanged]

theorem Stmt.relabelAll_unchanged : ∀ ss : List Stmt, Stmt.relabelAll .unchanged ss = ss
  | [] => rfl
  | s :: ss => by simp [Stmt.relabelAll, s.relabel_unchanged, Stmt.relabelAll_unchanged ss]

theorem FunctionDecl.relabelAll_unchanged : ∀ fs : List FunctionDecl, FunctionDecl.relabelAll .unchanged fs = fs
  | [] => rfl
  | f :: fs => by simp [FunctionDecl.relabelAll, f.relabel_unchanged, FunctionDecl.relabelAll_unchanged fs]

end

/-- One change and then another one come to a third one, as far as some ids go. -/
structure Relabeling.Joins (φ ψ χ : Relabeling) (ids : List Nat) : Prop where
  id : ∀ id ∈ ids, ψ.id (φ.id id) = χ.id id
  line : ∀ line, ψ.line (φ.line line) = χ.line line
  name : ∀ name, ψ.name (φ.name name) = χ.name name

namespace Relabeling.Joins

variable {φ ψ χ : Relabeling} {as bs : List Nat}

theorem append_iff : Joins φ ψ χ (as ++ bs) ↔ Joins φ ψ χ as ∧ Joins φ ψ χ bs := by
  constructor
  · rintro ⟨ids, line, name⟩
    exact ⟨⟨fun id member => ids id (List.mem_append_left _ member), line, name⟩,
      ⟨fun id member => ids id (List.mem_append_right _ member), line, name⟩⟩
  · rintro ⟨first, second⟩
    refine ⟨fun id member => ?_, first.line, first.name⟩
    rcases List.mem_append.mp member with before | behind
    · exact first.id id before
    · exact second.id id behind

theorem use (use : Use) (joins : Joins φ ψ χ [use.id]) : (use.relabel φ).relabel ψ = use.relabel χ := by
  simp [Use.relabel, joins.id, joins.line, joins.name]

end Relabeling.Joins

section Joins

variable {φ ψ χ : Relabeling}

mutual

theorem Expr.relabel_relabel : ∀ (e : Expr), Relabeling.Joins φ ψ χ (referenceIds e.references) →
    (e.relabel φ).relabel ψ = e.relabel χ
  | .literal _, _ => rfl
  | .group inner, joins => by simp [Expr.relabel, inner.relabel_relabel joins]
  | .unary _ operand _, joins => by simp [Expr.relabel, operand.relabel_relabel joins, joins.line]
  | .binary _ left right _, joins => by
    rw [Expr.references, referenceIds_append, Relabeling.Joins.append_iff] at joins
    simp [Expr.relabel, left.relabel_relabel joins.1, right.relabel_relabel joins.2, joins.1.line]
  | .conditional test consequent alternative, joins => by
    simp only [Expr.references, referenceIds_append, Relabeling.Joins.append_iff] at joins
    simp [Expr.relabel, test.relabel_relabel joins.1, consequent.relabel_relabel joins.2.1,
      alternative.relabel_relabel joins.2.2]
  | .var use, joins => by simp [Expr.relabel, joins.use use]
  | .assign target value, joins => by
    rw [Expr.references, ← List.singleton_append, referenceIds_append, Relabeling.Joins.append_iff] at joins
    simp [Expr.relabel, joins.1.use target, value.relabel_relabel joins.2]
  | .thisRef id _, joins => by simp [Expr.relabel, joins.line, joins.id id List.mem_cons_self]
  | .superRef id _ _, joins => by
    simp [Expr.relabel, joins.line, joins.name, joins.id id List.mem_cons_self]
  | .call callee arguments _, joins => by
    rw [Expr.references, referenceIds_append, Relabeling.Joins.append_iff] at joins
    simp [Expr.relabel, callee.relabel_relabel joins.1, Expr.relabelAll_relabelAll arguments joins.2,
      joins.1.line]
  | .field object _ _, joins => by
    simp [Expr.relabel, object.relabel_relabel joins, joins.line, joins.name]
  | .setField object _ value _, joins => by
    rw [Expr.references, referenceIds_append, Relabeling.Joins.append_iff] at joins
    simp [Expr.relabel, object.relabel_relabel joins.1, value.relabel_relabel joins.2, joins.1.line,
      joins.1.name]
  | .array elements, joins => by simp [Expr.relabel, Expr.relabelAll_relabelAll elements joins]
  | .element sequence index _, joins => by
    rw [Expr.references, referenceIds_append, Relabeling.Joins.append_iff] at joins
    simp [Expr.relabel, sequence.relabel_relabel joins.1, index.relabel_relabel joins.2, joins.1.line]
  | .setElement sequence index value _, joins => by
    simp only [Expr.references, referenceIds_append, Relabeling.Joins.append_iff] at joins
    simp [Expr.relabel, sequence.relabel_relabel joins.1, index.relabel_relabel joins.2.1,
      value.relabel_relabel joins.2.2, joins.1.line]

theorem Expr.relabelAll_relabelAll : ∀ (es : List Expr),
    Relabeling.Joins φ ψ χ (referenceIds (Expr.referencesAll es)) →
    Expr.relabelAll ψ (Expr.relabelAll φ es) = Expr.relabelAll χ es
  | [], _ => rfl
  | e :: es, joins => by
    rw [Expr.referencesAll, referenceIds_append, Relabeling.Joins.append_iff] at joins
    simp [Expr.relabelAll, e.relabel_relabel joins.1, Expr.relabelAll_relabelAll es joins.2]

end

theorem Expr.relabelOpt_relabelOpt (e? : Option Expr)
    (joins : Relabeling.Joins φ ψ χ (referenceIds (Expr.referencesOpt e?))) :
    (e?.map (Expr.relabel φ)).map (Expr.relabel ψ) = e?.map (Expr.relabel χ) := by
  cases e? with
  | none => rfl
  | some e =>
    rw [Expr.referencesOpt_some] at joins
    simp [e.relabel_relabel joins]

mutual

theorem Stmt.relabel_relabel : ∀ (s : Stmt) (chain : List Place),
    Relabeling.Joins φ ψ χ (siteIds (s.sites chain)) → (s.relabel φ).relabel ψ = s.relabel χ
  | .expr value, chain, joins => by
    rw [Stmt.sites, siteIds_sitesIn] at joins
    simp [Stmt.relabel, value.relabel_relabel joins]
  | .print items _, chain, joins => by
    rw [Stmt.sites, siteIds_sitesIn] at joins
    simp [Stmt.relabel, Expr.relabelAll_relabelAll items joins, joins.line]
  | .varDecl name initial? _, chain, joins => by
    rw [Stmt.sites, siteIds_sitesIn] at joins
    simp only [Stmt.relabel, Expr.relabelOpt_relabelOpt initial? joins, joins.line, joins.name]
  | .block body, chain, joins => by
    simp [Stmt.relabel, Stmt.relabelAll_relabelAll body _ joins]
  | .ifElse test consequent none, chain, joins => by
    rw [Stmt.sites, siteIds_append, siteIds_sitesIn, Relabeling.Joins.append_iff] at joins
    simp [Stmt.relabel, test.relabel_relabel joins.1, consequent.relabel_relabel _ joins.2]
  | .ifElse test consequent (some alternative), chain, joins => by
    simp only [Stmt.sites, siteIds_append, siteIds_sitesIn, Relabeling.Joins.append_iff] at joins
    simp [Stmt.relabel, test.relabel_relabel joins.1, consequent.relabel_relabel _ joins.2.1,
      alternative.relabel_relabel _ joins.2.2]
  | .whileLoop test body, chain, joins => by
    rw [Stmt.sites, siteIds_append, siteIds_sitesIn, Relabeling.Joins.append_iff] at joins
    simp [Stmt.relabel, test.relabel_relabel joins.1, body.relabel_relabel _ joins.2]
  | .forLoop none test? step? body, chain, joins => by
    simp only [Stmt.sites, siteIds_append, siteIds_sitesIn, referenceIds_append,
      Relabeling.Joins.append_iff] at joins
    simp only [Stmt.relabel, Expr.relabelOpt_relabelOpt test? joins.1.1,
      Expr.relabelOpt_relabelOpt step? joins.1.2, body.relabel_relabel _ joins.2]
  | .forLoop (some initial) test? step? body, chain, joins => by
    simp only [Stmt.sites, siteIds_append, siteIds_sitesIn, referenceIds_append,
      Relabeling.Joins.append_iff] at joins
    simp only [Stmt.relabel, initial.relabel_relabel _ joins.1, Expr.relabelOpt_relabelOpt test? joins.2.1.1,
      Expr.relabelOpt_relabelOpt step? joins.2.1.2, body.relabel_relabel _ joins.2.2]
  | .breakLoop, _, _ => rfl
  | .continueLoop, _, _ => rfl
  | .funDecl decl, chain, joins => by simp [Stmt.relabel, decl.relabel_relabel _ joins]
  | .returnValue value? _, chain, joins => by
    rw [Stmt.sites, siteIds_sitesIn] at joins
    simp only [Stmt.relabel, Expr.relabelOpt_relabelOpt value? joins, joins.line]
  | .classDecl name superclass? methods line, chain, joins => by
    rw [Stmt.sites, siteIds_append, siteIds_sitesIn, Relabeling.Joins.append_iff] at joins
    have above : (superclass?.map (Use.relabel φ)).map (Use.relabel ψ) = superclass?.map (Use.relabel χ) := by
      cases superclass? with
      | none => rfl
      | some use => simp [joins.1.use use]
    simp only [Stmt.relabel, above, FunctionDecl.relabelAll_relabelAll methods _ joins.2, joins.1.line,
      joins.1.name]

theorem FunctionDecl.relabel_relabel : ∀ (f : FunctionDecl) (chain : List Place),
    Relabeling.Joins φ ψ χ (siteIds (f.sites chain)) → (f.relabel φ).relabel ψ = f.relabel χ
  | { name, params, body, line }, chain, joins => by
    simp [FunctionDecl.relabel, Stmt.relabelAll_relabelAll body _ joins, joins.line, joins.name]

theorem Stmt.relabelAll_relabelAll : ∀ (ss : List Stmt) (chain : List Place),
    Relabeling.Joins φ ψ χ (siteIds (Stmt.sitesAll ss chain)) →
    Stmt.relabelAll ψ (Stmt.relabelAll φ ss) = Stmt.relabelAll χ ss
  | [], _, _ => rfl
  | s :: ss, chain, joins => by
    rw [Stmt.sitesAll, siteIds_append, Relabeling.Joins.append_iff] at joins
    simp [Stmt.relabelAll, s.relabel_relabel _ joins.1, Stmt.relabelAll_relabelAll ss _ joins.2]

theorem FunctionDecl.relabelAll_relabelAll : ∀ (fs : List FunctionDecl) (chain : List Place),
    Relabeling.Joins φ ψ χ (siteIds (FunctionDecl.sitesAll fs chain)) →
    FunctionDecl.relabelAll ψ (FunctionDecl.relabelAll φ fs) = FunctionDecl.relabelAll χ fs
  | [], _, _ => rfl
  | f :: fs, chain, joins => by
    rw [FunctionDecl.sitesAll, siteIds_append, Relabeling.Joins.append_iff] at joins
    simp [FunctionDecl.relabelAll, f.relabel_relabel _ joins.1, FunctionDecl.relabelAll_relabelAll fs _ joins.2]

end

end Joins

/-! ### Polish forms -/

abbrev Relabeling.KeepsNames (φ : Relabeling) : Prop :=
  ∀ name, φ.name name = name

section Polish

variable {φ : Relabeling}

mutual

theorem Expr.polish_relabel (plain : φ.KeepsNames) : ∀ e : Expr, (e.relabel φ).polish = e.polish
  | .literal _ => rfl
  | .group inner => by simp [Expr.relabel, Expr.polish, inner.polish_relabel plain]
  | .unary _ operand _ => by simp [Expr.relabel, Expr.polish, operand.polish_relabel plain]
  | .binary _ left right _ => by
    simp [Expr.relabel, Expr.polish, left.polish_relabel plain, right.polish_relabel plain]
  | .conditional test consequent alternative => by
    simp [Expr.relabel, Expr.polish, test.polish_relabel plain, consequent.polish_relabel plain,
      alternative.polish_relabel plain]
  | .var use => by simp [Expr.relabel, Expr.polish, Use.relabel, plain]
  | .assign target value => by simp [Expr.relabel, Expr.polish, Use.relabel, plain, value.polish_relabel plain]
  | .thisRef _ _ => rfl
  | .superRef _ _ _ => by simp [Expr.relabel, Expr.polish, plain]
  | .call callee arguments _ => by
    simp [Expr.relabel, Expr.polish, callee.polish_relabel plain, Expr.polishAll_relabelAll plain arguments]
  | .field object _ _ => by simp [Expr.relabel, Expr.polish, object.polish_relabel plain, plain]
  | .setField object _ value _ => by
    simp [Expr.relabel, Expr.polish, object.polish_relabel plain, value.polish_relabel plain, plain]
  | .array elements => by simp [Expr.relabel, Expr.polish, Expr.polishAll_relabelAll plain elements]
  | .element sequence index _ => by
    simp [Expr.relabel, Expr.polish, sequence.polish_relabel plain, index.polish_relabel plain]
  | .setElement sequence index value _ => by
    simp [Expr.relabel, Expr.polish, sequence.polish_relabel plain, index.polish_relabel plain,
      value.polish_relabel plain]

theorem Expr.polishAll_relabelAll (plain : φ.KeepsNames) : ∀ es : List Expr,
    Expr.polishAll (Expr.relabelAll φ es) = Expr.polishAll es
  | [] => rfl
  | e :: es => by
    simp [Expr.relabelAll, Expr.polishAll, e.polish_relabel plain, Expr.polishAll_relabelAll plain es]

end

theorem Expr.polishOr_relabel (plain : φ.KeepsNames) (absent : String) (e? : Option Expr) :
    Expr.polishOr absent (e?.map (Expr.relabel φ)) = Expr.polishOr absent e? := by
  cases e? with
  | none => rfl
  | some e => exact Expr.polish_relabel plain e

theorem Expr.polishAll_toList_relabel (plain : φ.KeepsNames) (e? : Option Expr) :
    Expr.polishAll (e?.map (Expr.relabel φ)).toList = Expr.polishAll e?.toList := by
  cases e? with
  | none => rfl
  | some e => exact Expr.polishAll_relabelAll plain [e]

mutual

theorem Stmt.polish_relabel (plain : φ.KeepsNames) : ∀ s : Stmt, (s.relabel φ).polish = s.polish
  | .expr value => by simp [Stmt.relabel, Stmt.polish, value.polish_relabel plain]
  | .print items _ => by simp [Stmt.relabel, Stmt.polish, Expr.polishAll_relabelAll plain items]
  | .varDecl name initial? _ => by
    rw [Stmt.relabel, Stmt.polish, Stmt.polish, Expr.polishAll_toList_relabel plain, plain]
  | .block body => by simp [Stmt.relabel, Stmt.polish, Stmt.polishAll_relabelAll plain body]
  | .ifElse test consequent none => by
    simp [Stmt.relabel, Stmt.polish, test.polish_relabel plain, consequent.polish_relabel plain]
  | .ifElse test consequent (some alternative) => by
    simp [Stmt.relabel, Stmt.polish, test.polish_relabel plain, consequent.polish_relabel plain,
      alternative.polish_relabel plain]
  | .whileLoop test body => by
    simp [Stmt.relabel, Stmt.polish, test.polish_relabel plain, body.polish_relabel plain]
  | .forLoop none test? step? body => by
    rw [Stmt.relabel, Stmt.polish, Stmt.polish, Expr.polishOr_relabel plain, Expr.polishOr_relabel plain,
      body.polish_relabel plain]
  | .forLoop (some initial) test? step? body => by
    rw [Stmt.relabel, Stmt.polish, Stmt.polish, Expr.polishOr_relabel plain, Expr.polishOr_relabel plain,
      initial.polish_relabel plain, body.polish_relabel plain]
  | .breakLoop => rfl
  | .continueLoop => rfl
  | .funDecl decl => by simp [Stmt.relabel, Stmt.polish, decl.polish_relabel plain]
  | .returnValue value? _ => by
    rw [Stmt.relabel, Stmt.polish, Stmt.polish, Expr.polishAll_toList_relabel plain]
  | .classDecl name none methods _ => by
    simp [Stmt.relabel, Stmt.polish, FunctionDecl.polishAll_relabelAll plain methods, plain]
  | .classDecl name (some use) methods _ => by
    simp [Stmt.relabel, Stmt.polish, FunctionDecl.polishAll_relabelAll plain methods, Use.relabel, plain]

theorem FunctionDecl.polish_relabel (plain : φ.KeepsNames) : ∀ f : FunctionDecl, (f.relabel φ).polish = f.polish
  | { name, params, body, line } => by
    have names : params.map φ.name = params := List.map_id'' plain params
    simp [FunctionDecl.relabel, FunctionDecl.polish, Stmt.polishAll_relabelAll plain body, names, plain]

theorem Stmt.polishAll_relabelAll (plain : φ.KeepsNames) : ∀ ss : List Stmt,
    Stmt.polishAll (Stmt.relabelAll φ ss) = Stmt.polishAll ss
  | [] => rfl
  | s :: ss => by
    simp [Stmt.relabelAll, Stmt.polishAll, s.polish_relabel plain, Stmt.polishAll_relabelAll plain ss]

theorem FunctionDecl.polishAll_relabelAll (plain : φ.KeepsNames) : ∀ fs : List FunctionDecl,
    FunctionDecl.polishAll (FunctionDecl.relabelAll φ fs) = FunctionDecl.polishAll fs
  | [] => rfl
  | f :: fs => by
    simp [FunctionDecl.relabelAll, FunctionDecl.polishAll, f.polish_relabel plain,
      FunctionDecl.polishAll_relabelAll plain fs]

end

/-- What is shown of a program does not depend on ids and lines. -/
theorem Stmt.dump_relabelAll (plain : φ.KeepsNames) (program : List Stmt) :
    Stmt.dump (Stmt.relabelAll φ program) = Stmt.dump program := by
  unfold Stmt.dump
  congr 1
  induction program with
  | nil => rfl
  | cons s program ih =>
    rw [Stmt.relabelAll, List.map_cons, List.map_cons, ih, s.polish_relabel plain]

end Polish

end Lox
