import Lox.Proofs.Syntax.Natural

/-!
The walk over scopes and relabelings. The walk does not look at lines, and of ids it wants no more than
that different ones stay different: with other ids and lines it finds the same distances and errors
there, on top of whatever distances it starts with. Behind a phrase it is as deep in scopes as in front
of it, in a function and a class of the same kind.
-/

namespace Lox

open Resolution

/-- Two walks at the same place, of which the second one is over other ids and lines and knows some
distances to start with. -/
structure Resolution.Image (φ : Relabeling) (known : Distances) (r r' : Resolution) : Prop where
  scopes : r'.scopes = r.scopes
  distances : ∀ id, r'.distances.get? (φ.id id) = (r.distances.get? id).or (known.get? (φ.id id))
  diagnostics : r'.diagnostics = r.diagnostics.map (Diagnostic.relabel φ)
  functionKind : r'.functionKind = r.functionKind
  classKind : r'.classKind = r.classKind

/-- A change of ids and lines that keeps different ids different. -/
structure Relabeling.Faithful (φ : Relabeling) : Prop where
  names : φ.KeepsNames
  apart : ∀ id other, φ.id id = φ.id other → id = other

theorem Relabeling.shift_faithful (count : Nat) : (shift count).Faithful :=
  ⟨fun _ => rfl, fun _ _ => Nat.add_right_cancel⟩

namespace Resolution.Image

variable {φ : Relabeling} {known : Distances} {r r' : Resolution}

theorem report (image : Image φ known r r') (line : Nat) (error : StaticError) :
    Image φ known (r.report line error) (r'.report (φ.line line) (error.relabel φ)) := by
  refine { image with diagnostics := ?_ }
  simp only [Resolution.report, image.diagnostics, List.map_append]
  rfl

theorem openScope (image : Image φ known r r') : Image φ known r.openScope r'.openScope :=
  { image with scopes := congrArg ([] :: ·) image.scopes }

theorem closeScope (image : Image φ known r r') : Image φ known r.closeScope r'.closeScope :=
  { image with scopes := congrArg List.tail image.scopes }

theorem withFunctionKind (image : Image φ known r r') (kind : FunctionKind) :
    Image φ known { r with functionKind := kind } { r' with functionKind := kind } :=
  { image with functionKind := rfl }

theorem withClassKind (image : Image φ known r r') (kind : ClassKind) :
    Image φ known { r with classKind := kind } { r' with classKind := kind } :=
  { image with classKind := rfl }

theorem setName (image : Image φ known r r') (name : String) (isKnown : Bool) :
    Image φ known (r.setName name isKnown) (r'.setName name isKnown) := by
  unfold Resolution.setName
  rw [image.scopes]
  cases r.scopes with
  | nil => exact image
  | cons scope outer => exact { image with scopes := rfl }

theorem declare (image : Image φ known r r') (faithful : φ.Faithful) (name : String) (line : Nat) :
    Image φ known (r.declare name line) (r'.declare name (φ.line line)) := by
  unfold Resolution.declare declares
  rw [image.scopes]
  dsimp only
  split
  · have reported := (image.setName name false).report line (.alreadyDeclared name)
    rwa [StaticError.relabel, faithful.names] at reported
  · exact image.setName name false

theorem define (image : Image φ known r r') (name : String) :
    Image φ known (r.define name) (r'.define name) :=
  image.setName name true

theorem refer (image : Image φ known r r') (faithful : φ.Faithful) (id : Nat) (name : String) :
    Image φ known (r.refer id name) (r'.refer (φ.id id) name) := by
  unfold Resolution.refer
  rw [image.scopes]
  cases r.scopes.findIdx? (·.has name) with
  | none => exact image
  | some distance =>
    refine ⟨rfl, fun other => ?_, image.diagnostics, image.functionKind, image.classKind⟩
    rw [Table.get?_put, Table.get?_put]
    by_cases same : other = id
    · rw [if_pos same, if_pos (congrArg φ.id same)]
      rfl
    · rw [if_neg same, if_neg fun h => same (faithful.apart _ _ h)]
      exact image.distances other

theorem read (image : Image φ known r r') (faithful : φ.Faithful) (use : Use) :
    Image φ known (r.read use) (r'.read (use.relabel φ)) := by
  have name : (use.relabel φ).name = use.name := faithful.names use.name
  unfold Resolution.read
  rw [image.scopes, name]
  split
  · have reported := image.report use.line (.ownInitializer use.name)
    rw [StaticError.relabel, faithful.names] at reported
    exact reported.refer faithful use.id use.name
  · exact image.refer faithful use.id use.name

end Resolution.Image

section Walks

variable {φ : Relabeling} {known : Distances} {r r' : Resolution}

mutual

theorem Expr.resolve_image (faithful : φ.Faithful) : ∀ (e : Expr) {r r' : Resolution},
    r.Image φ known r' → (e.resolve r).Image φ known ((e.relabel φ).resolve r')
  | .literal _, _, _, image => image
  | .group inner, _, _, image => inner.resolve_image faithful image
  | .unary _ operand _, _, _, image => operand.resolve_image faithful image
  | .binary _ left right _, _, _, image =>
    right.resolve_image faithful (left.resolve_image faithful image)
  | .conditional test consequent alternative, _, _, image =>
    alternative.resolve_image faithful
      (consequent.resolve_image faithful (test.resolve_image faithful image))
  | .var use, _, _, image => image.read faithful use
  | .assign target value, _, _, image => by
    have name : (target.relabel φ).name = target.name := faithful.names target.name
    rw [Expr.relabel, Expr.resolve, Expr.resolve, name]
    exact (value.resolve_image faithful image).refer faithful target.id target.name
  | .thisRef id line, r, r', image => by
    unfold Expr.relabel Expr.resolve
    rw [image.classKind]
    split
    · exact image.report line .thisOutsideClass
    · exact image.refer faithful id thisName
  | .superRef id _ line, r, r', image => by
    unfold Expr.relabel Expr.resolve
    rw [image.classKind]
    split
    · exact image.refer faithful id superName
    · exact image.report line .superOutsideSubclass
  | .call callee arguments _, _, _, image =>
    Expr.resolveAll_image faithful arguments (callee.resolve_image faithful image)
  | .field object _ _, _, _, image => object.resolve_image faithful image
  | .setField object _ value _, _, _, image =>
    object.resolve_image faithful (value.resolve_image faithful image)
  | .array elements, _, _, image => Expr.resolveAll_image faithful elements image
  | .element sequence index _, _, _, image =>
    index.resolve_image faithful (sequence.resolve_image faithful image)
  | .setElement sequence index value _, _, _, image =>
    index.resolve_image faithful (sequence.resolve_image faithful (value.resolve_image faithful image))

theorem Expr.resolveAll_image (faithful : φ.Faithful) : ∀ (es : List Expr) {r r' : Resolution},
    r.Image φ known r' → (Expr.resolveAll es r).Image φ known (Expr.resolveAll (Expr.relabelAll φ es) r')
  | [], _, _, image => image
  | e :: es, _, _, image => Expr.resolveAll_image faithful es (e.resolve_image faithful image)

end

theorem Expr.resolveOpt_image (faithful : φ.Faithful) (e? : Option Expr) (image : r.Image φ known r') :
    (Expr.resolveOpt e? r).Image φ known (Expr.resolveOpt (e?.map (Expr.relabel φ)) r') := by
  cases e? with
  | none => exact image
  | some e => exact e.resolve_image faithful image

theorem declareParams_image (faithful : φ.Faithful) (params : List String) (line : Nat)
    (image : r.Image φ known r') :
    (declareParams params line r).Image φ known (declareParams (params.map φ.name) (φ.line line) r') := by
  unfold declareParams
  induction params generalizing r r' with
  | nil => exact image
  | cons name params ih =>
    rw [List.map_cons, List.foldl_cons, List.foldl_cons, faithful.names]
    exact ih ((image.declare faithful name line).define name)

theorem resolveReturn_image (faithful : φ.Faithful) (value? : Option Expr) (line : Nat)
    (image : r.Image φ known r') :
    (resolveReturn value? line r).Image φ known
      (resolveReturn (value?.map (Expr.relabel φ)) (φ.line line) r') := by
  cases value? with
  | none => exact image
  | some value =>
    refine value.resolve_image faithful ?_
    rw [image.functionKind]
    split
    · exact image.report line .returnFromInitializer
    · exact image

theorem enterClass_image (faithful : φ.Faithful) (name : String) (superclass? : Option Use) (line : Nat)
    (image : r.Image φ known r') :
    (enterClass name superclass? line r).Image φ known
      (enterClass name (superclass?.map (Use.relabel φ)) (φ.line line) r') := by
  have named := ((image.withClassKind .base).declare faithful name line).define name
  cases superclass? with
  | none => exact (named.openScope).define thisName
  | some use =>
    have same : (use.relabel φ).name = use.name := faithful.names use.name
    unfold enterClass
    dsimp only [Option.map_some]
    rw [same]
    refine (Image.openScope (Image.define (Image.openScope (Image.read (.withClassKind ?_ _) faithful use)) _)).define _
    split
    · exact named.report use.line .inheritFromSelf
    · exact named

theorem leaveClass_image (superclass? : Option Use) (outer : ClassKind) (image : r.Image φ known r') :
    (leaveClass superclass? outer r).Image φ known
      (leaveClass (superclass?.map (Use.relabel φ)) outer r') := by
  cases superclass? with
  | none => exact image.closeScope.withClassKind outer
  | some _ => exact image.closeScope.closeScope.withClassKind outer

mutual

theorem Stmt.resolve_image (faithful : φ.Faithful) : ∀ (s : Stmt) {r r' : Resolution},
    r.Image φ known r' → (s.resolve r).Image φ known ((s.relabel φ).resolve r')
  | .expr value, _, _, image => value.resolve_image faithful image
  | .print items _, _, _, image => Expr.resolveAll_image faithful items image
  | .varDecl name initial? line, _, _, image => by
    rw [Stmt.relabel, faithful.names]
    exact (Expr.resolveOpt_image faithful initial? (image.declare faithful name line)).define name
  | .block body, _, _, image => (Stmt.resolveAll_image faithful body image.openScope).closeScope
  | .ifElse test consequent none, _, _, image =>
    consequent.resolve_image faithful (test.resolve_image faithful image)
  | .ifElse test consequent (some alternative), _, _, image =>
    alternative.resolve_image faithful
      (consequent.resolve_image faithful (test.resolve_image faithful image))
  | .whileLoop test body, _, _, image => body.resolve_image faithful (test.resolve_image faithful image)
  | .forLoop none test? step? body, _, _, image =>
    (body.resolve_image faithful (Expr.resolveOpt_image faithful step?
      (Expr.resolveOpt_image faithful test? image.openScope))).closeScope
  | .forLoop (some initial) test? step? body, _, _, image =>
    (body.resolve_image faithful (Expr.resolveOpt_image faithful step?
      (Expr.resolveOpt_image faithful test? (initial.resolve_image faithful image.openScope)))).closeScope
  | .breakLoop, _, _, image => image
  | .continueLoop, _, _, image => image
  | .funDecl decl, r, r', image => by
    have declared := (image.declare faithful decl.name decl.line).define decl.name
    rw [Stmt.relabel, Stmt.resolve, Stmt.resolve, FunctionDecl.relabel_name, FunctionDecl.relabel_line, faithful.names]
    exact decl.resolve_image faithful .function declared
  | .returnValue value? line, _, _, image => resolveReturn_image faithful value? line image
  | .classDecl name superclass? methods line, r, r', image => by
    have inside := FunctionDecl.resolveMethods_image faithful methods
      (enterClass_image faithful name superclass? line image)
    rw [Stmt.relabel, Stmt.resolve, Stmt.resolve, faithful.names, image.classKind]
    exact leaveClass_image superclass? r.classKind inside

theorem FunctionDecl.resolve_image (faithful : φ.Faithful) : ∀ (f : FunctionDecl) (kind : FunctionKind)
    {r r' : Resolution}, r.Image φ known r' → (f.resolve kind r).Image φ known ((f.relabel φ).resolve kind r')
  | { name, params, body, line }, kind, r, r', image => by
    have entered := declareParams_image faithful params line (image.withFunctionKind kind).openScope
    have inside := (Stmt.resolveAll_image faithful body entered).closeScope
    exact { inside with functionKind := image.functionKind }

theorem Stmt.resolveAll_image (faithful : φ.Faithful) : ∀ (ss : List Stmt) {r r' : Resolution},
    r.Image φ known r' → (Stmt.resolveAll ss r).Image φ known (Stmt.resolveAll (Stmt.relabelAll φ ss) r')
  | [], _, _, image => image
  | s :: ss, _, _, image => Stmt.resolveAll_image faithful ss (s.resolve_image faithful image)

theorem FunctionDecl.resolveMethods_image (faithful : φ.Faithful) : ∀ (fs : List FunctionDecl)
    {r r' : Resolution}, r.Image φ known r' → (FunctionDecl.resolveMethods fs r).Image φ known
      (FunctionDecl.resolveMethods (FunctionDecl.relabelAll φ fs) r')
  | [], _, _, image => image
  | f :: fs, r, r', image => by
    have first := f.resolve_image faithful (.ofMethod f.name) image
    rw [FunctionDecl.relabelAll, FunctionDecl.resolveMethods, FunctionDecl.resolveMethods, FunctionDecl.relabel_name,
      faithful.names]
    exact FunctionDecl.resolveMethods_image faithful fs first

end

end Walks

/-! ### What a phrase leaves as it was -/

/-- Two walks as deep in scopes as each other, with the same scopes around the innermost one, and in
functions and classes of the same kinds. -/
structure Resolution.Restored (r r' : Resolution) : Prop where
  depth : r'.scopes.length = r.scopes.length
  outer : r'.scopes.tail = r.scopes.tail
  functionKind : r'.functionKind = r.functionKind
  classKind : r'.classKind = r.classKind

namespace Resolution

variable {r r' r'' : Resolution}

theorem Restored.refl (r : Resolution) : r.Restored r :=
  ⟨rfl, rfl, rfl, rfl⟩

theorem Restored.trans (first : r.Restored r') (second : r'.Restored r'') : r.Restored r'' :=
  ⟨second.depth.trans first.depth, second.outer.trans first.outer,
    second.functionKind.trans first.functionKind, second.classKind.trans first.classKind⟩

theorem restored_report (r : Resolution) (line : Nat) (error : StaticError) : r.Restored (r.report line error) :=
  ⟨rfl, rfl, rfl, rfl⟩

theorem restored_refer (r : Resolution) (id : Nat) (name : String) : r.Restored (r.refer id name) := by
  unfold refer
  split <;> exact ⟨rfl, rfl, rfl, rfl⟩

theorem restored_setName (r : Resolution) (name : String) (known : Bool) : r.Restored (r.setName name known) := by
  unfold setName
  cases scopes : r.scopes with
  | nil => exact .refl r
  | cons scope outer => constructor <;> simp [scopes]

theorem restored_declare (r : Resolution) (name : String) (line : Nat) : r.Restored (r.declare name line) := by
  unfold declare
  dsimp only
  split
  · exact (r.restored_setName name false).trans (restored_report _ _ _)
  · exact r.restored_setName name false

theorem restored_define (r : Resolution) (name : String) : r.Restored (r.define name) :=
  r.restored_setName name true

theorem restored_read (r : Resolution) (use : Use) : r.Restored (r.read use) := by
  unfold read
  split
  · exact (r.restored_report _ _).trans (restored_refer _ _ _)
  · exact r.restored_refer _ _

/-- A scope that was opened is closed again. -/
theorem Restored.close (inside : r.openScope.Restored r') : r.Restored r'.closeScope := by
  have scopes : r'.scopes.tail = r.scopes := inside.outer
  exact ⟨congrArg List.length scopes, congrArg List.tail scopes, inside.functionKind, inside.classKind⟩

end Resolution

mutual

theorem Expr.restored : ∀ (e : Expr) (r : Resolution), r.Restored (e.resolve r)
  | .literal _, r => .refl r
  | .group inner, r => inner.restored r
  | .unary _ operand _, r => operand.restored r
  | .binary _ left right _, r => (left.restored r).trans (right.restored _)
  | .conditional test consequent alternative, r =>
    (test.restored r).trans ((consequent.restored _).trans (alternative.restored _))
  | .var use, r => r.restored_read use
  | .assign target value, r => (value.restored r).trans (restored_refer _ _ _)
  | .thisRef id line, r => by
    unfold Expr.resolve
    split
    · exact r.restored_report _ _
    · exact r.restored_refer _ _
  | .superRef id _ line, r => by
    unfold Expr.resolve
    split
    · exact r.restored_refer _ _
    · exact r.restored_report _ _
  | .call callee arguments _, r => (callee.restored r).trans (Expr.restoredAll arguments _)
  | .field object _ _, r => object.restored r
  | .setField object _ value _, r => (value.restored r).trans (object.restored _)
  | .array elements, r => Expr.restoredAll elements r
  | .element sequence index _, r => (sequence.restored r).trans (index.restored _)
  | .setElement sequence index value _, r => (value.restored r).trans ((sequence.restored _).trans (index.restored _))

theorem Expr.restoredAll : ∀ (es : List Expr) (r : Resolution), r.Restored (Expr.resolveAll es r)
  | [], r => .refl r
  | e :: es, r => (e.restored r).trans (Expr.restoredAll es _)

end

theorem declareParams_restored (params : List String) (line : Nat) (r : Resolution) :
    r.Restored (declareParams params line r) := by
  unfold declareParams
  induction params generalizing r with
  | nil => exact .refl r
  | cons name params ih => exact ((r.restored_declare name line).trans (restored_define _ name)).trans (ih _)

theorem resolveReturn_restored (value? : Option Expr) (line : Nat) (r : Resolution) :
    r.Restored (resolveReturn value? line r) := by
  cases value? with
  | none => exact .refl r
  | some value =>
    refine Restored.trans ?_ (value.restored _)
    split
    · exact r.restored_report _ _
    · exact .refl r

theorem Resolution.Restored.withClassKind {r r' : Resolution} {kind : ClassKind}
    (inside : ({ r with classKind := kind } : Resolution).Restored r') :
    r.Restored { r' with classKind := r.classKind } :=
  ⟨inside.depth, inside.outer, inside.functionKind, rfl⟩

/-- The walk over the methods of a class ends in its scopes, which are left again. -/
theorem leaveClass_restored (name : String) (superclass? : Option Use) (line : Nat) {r r' : Resolution}
    (inside : (enterClass name superclass? line r).Restored r') :
    r.Restored (leaveClass superclass? r.classKind r') := by
  have named : ({ r with classKind := .base } : Resolution).Restored
      (({ r with classKind := .base }.declare name line).define name) :=
    (restored_declare _ name line).trans (restored_define _ name)
  cases superclass? with
  | none => exact (named.trans ((restored_define _ thisName).trans inside).close).withClassKind
  | some use =>
    have above := ((restored_define _ thisName).trans inside).close
    have read := ((restored_read _ use).trans ((restored_define _ superName).trans above).close).withClassKind
    refine (named.trans (Restored.trans ?_ read)).withClassKind
    split
    · exact restored_report _ _ _
    · exact .refl _

mutual

theorem Stmt.restored : ∀ (s : Stmt) (r : Resolution), r.Restored (s.resolve r)
  | .expr value, r => value.restored r
  | .print items _, r => Expr.restoredAll items r
  | .varDecl name initial? line, r =>
    (r.restored_declare name line).trans ((Expr.restoredAll initial?.toList _).trans (restored_define _ name))
  | .block body, r => (Stmt.restoredAll body r.openScope).close
  | .ifElse test consequent none, r => (test.restored r).trans (consequent.restored _)
  | .ifElse test consequent (some alternative), r =>
    (test.restored r).trans ((consequent.restored _).trans (alternative.restored _))
  | .whileLoop test body, r => (test.restored r).trans (body.restored _)
  | .forLoop none test? step? body, r =>
    ((Expr.restoredAll test?.toList r.openScope).trans
      ((Expr.restoredAll step?.toList _).trans (body.restored _))).close
  | .forLoop (some initial) test? step? body, r =>
    ((initial.restored r.openScope).trans ((Expr.restoredAll test?.toList _).trans
      ((Expr.restoredAll step?.toList _).trans (body.restored _)))).close
  | .breakLoop, r => .refl r
  | .continueLoop, r => .refl r
  | .funDecl decl, r =>
    ((r.restored_declare decl.name decl.line).trans (restored_define _ decl.name)).trans
      (decl.restored .function _)
  | .returnValue value? line, r => resolveReturn_restored value? line r
  | .classDecl name superclass? methods line, _ =>
    leaveClass_restored name superclass? line (FunctionDecl.restoredAll methods _)

theorem FunctionDecl.restored : ∀ (f : FunctionDecl) (kind : FunctionKind) (r : Resolution),
    r.Restored (f.resolve kind r)
  | { name, params, body, line }, kind, r => by
    have entered := declareParams_restored params line { r with functionKind := kind }.openScope
    have inside := (entered.trans (Stmt.restoredAll body _)).close
    exact ⟨inside.depth, inside.outer, rfl, inside.classKind⟩

theorem Stmt.restoredAll : ∀ (ss : List Stmt) (r : Resolution), r.Restored (Stmt.resolveAll ss r)
  | [], r => .refl r
  | s :: ss, r => (s.restored r).trans (Stmt.restoredAll ss _)

theorem FunctionDecl.restoredAll : ∀ (fs : List FunctionDecl) (r : Resolution),
    r.Restored (FunctionDecl.resolveMethods fs r)
  | [], r => .refl r
  | f :: fs, r => (f.restored _ r).trans (FunctionDecl.restoredAll fs _)

end

end Lox
