import Lox.Proofs.Scope.Walk

/-!
Other names for local variables. A renaming is of one variable or parameter of one scope. It changes the
declaration and the nodes that have the distance of that scope and the name, and nothing else. `Renamed`
says the same of trees with any choice of scopes in which the two names change places; it is what the
walk over scopes and runs go by, which meet parts of programs.
-/

namespace Lox

/-! ### Names -/

/-- A name for a variable in place of another one. Both are spelled unlike all keywords. -/
structure Renaming where
  old : String
  new : String
  /-- The scope of the variable, by the numbers of the parts in which it is, from the inside out. -/
  scope : List Nat
  old_free : Keyword.ofSpelling? old = none
  new_free : Keyword.ofSpelling? new = none

/-- For each scope around a place, innermost first, whether its variable is renamed. -/
abbrev Marks : Type :=
  List Bool

namespace Renaming

variable (ρ : Renaming) {marks : Marks}

/-- A name of a scope. The names change places, so that different ones stay different; where there is no new
one it takes the place of the old one. -/
def name (marked : Bool) (name : String) : String :=
  if marked = false then name
  else if name = ρ.old then ρ.new
  else if name = ρ.new then ρ.old
  else name

/-- A name that belongs to the scope so far out. -/
def nameAt (marks : Marks) : Option Nat → String → String
  | none, name => name
  | some distance, name => ρ.name (marks.getD distance false) name

/-- Whether a scope with some variables is the one with the variable. -/
def owns (path : List Nat) (names : List String) : Bool :=
  path = ρ.scope && names.contains ρ.old

@[simp] theorem name_unmarked (name : String) : ρ.name false name = name :=
  rfl

theorem name_old : ρ.name true ρ.old = ρ.new := by
  simp [name]

theorem name_other {name : String} (notOld : name ≠ ρ.old) (notNew : name ≠ ρ.new) (marked : Bool) :
    ρ.name marked name = name := by
  simp [Renaming.name, notOld, notNew]

@[simp] theorem name_name (marked : Bool) (name : String) : ρ.name marked (ρ.name marked name) = name := by
  unfold Renaming.name
  cases marked with
  | false => rfl
  | true => grind

theorem name_injective (marked : Bool) {name other : String} (same : ρ.name marked name = ρ.name marked other) :
    name = other := by
  rw [← ρ.name_name marked name, same, name_name]

theorem name_new : ρ.name true ρ.new = ρ.old := by
  rw [← ρ.name_old, name_name]

theorem keyword_ne_old (k : Keyword) : k.spelling ≠ ρ.old := by
  intro same
  have free := same ▸ ρ.old_free
  simp [Keyword.ofSpelling?_spelling] at free

theorem keyword_ne_new (k : Keyword) : k.spelling ≠ ρ.new := by
  intro same
  have free := same ▸ ρ.new_free
  simp [Keyword.ofSpelling?_spelling] at free

theorem this_ne_new : thisName ≠ ρ.new :=
  ρ.keyword_ne_new .thisWord

theorem super_ne_new : superName ≠ ρ.new :=
  ρ.keyword_ne_new .superWord

/-- Words of the language are not renamed. -/
theorem name_keyword (marked : Bool) (k : Keyword) : ρ.name marked k.spelling = k.spelling :=
  ρ.name_other (ρ.keyword_ne_old k) (ρ.keyword_ne_new k) marked

@[simp] theorem name_this (marked : Bool) : ρ.name marked thisName = thisName :=
  ρ.name_keyword marked .thisWord

@[simp] theorem name_super (marked : Bool) : ρ.name marked superName = superName :=
  ρ.name_keyword marked .superWord

@[simp] theorem nameAt_this (distance? : Option Nat) : ρ.nameAt marks distance? thisName = thisName := by
  cases distance? with
  | none => rfl
  | some distance => exact ρ.name_this _

@[simp] theorem nameAt_super (distance? : Option Nat) : ρ.nameAt marks distance? superName = superName := by
  cases distance? with
  | none => rfl
  | some distance => exact ρ.name_super _

end Renaming

/-! ### Programs with a variable renamed -/

/-- The variable that a statement declares in the scope that it is in. -/
def Stmt.varName? : Stmt → Option String
  | .varDecl name _ _ => some name
  | _ => none

def Stmt.variables (ss : List Stmt) : List String :=
  ss.filterMap Stmt.varName?

/-- The scopes around the methods of a class have no variables to rename. -/
def methodMarks (superclass? : Option Use) (marks : Marks) : Marks :=
  if superclass?.isSome then false :: false :: marks else false :: marks

section Trees

variable (ρ : Renaming) (d : Distances)

/-- A node that names a variable. It is renamed with the scope that it refers to. -/
def Use.rename (marks : Marks) (use : Use) : Use :=
  { use with name := ρ.nameAt marks (d.get? use.id) use.name }

mutual

def Expr.rename (marks : Marks) : Expr → Expr
  | .literal value => .literal value
  | .group inner => .group (inner.rename marks)
  | .unary op operand line => .unary op (operand.rename marks) line
  | .binary op left right line => .binary op (left.rename marks) (right.rename marks) line
  | .conditional test consequent alternative =>
    .conditional (test.rename marks) (consequent.rename marks) (alternative.rename marks)
  | .var use => .var (use.rename ρ d marks)
  | .assign target value => .assign (target.rename ρ d marks) (value.rename marks)
  | .thisRef id line => .thisRef id line
  | .superRef id method line => .superRef id method line
  | .call callee arguments line => .call (callee.rename marks) (Expr.renameAll marks arguments) line
  | .field object name line => .field (object.rename marks) name line
  | .setField object name value line => .setField (object.rename marks) name (value.rename marks) line
  | .array elements => .array (Expr.renameAll marks elements)
  | .element sequence index line => .element (sequence.rename marks) (index.rename marks) line
  | .setElement sequence index value line =>
    .setElement (sequence.rename marks) (index.rename marks) (value.rename marks) line

def Expr.renameAll (marks : Marks) : List Expr → List Expr
  | [] => []
  | e :: es => e.rename marks :: Expr.renameAll marks es

end

mutual

/-- A statement at a place in a program, with the variable renamed. -/
def Stmt.rename : Stmt → (path : List Nat) → Marks → Stmt
  | .expr value, _, marks => .expr (value.rename ρ d marks)
  | .print items line, _, marks => .print (Expr.renameAll ρ d marks items) line
  | .varDecl name initial? line, _, marks =>
    .varDecl (ρ.name (marks.headD false) name) (initial?.map (Expr.rename ρ d marks)) line
  | .block body, path, marks =>
    .block (Stmt.renameAll body path 0 (ρ.owns path (Stmt.variables body) :: marks))
  | .ifElse test consequent none, path, marks =>
    .ifElse (test.rename ρ d marks) (consequent.rename (0 :: path) marks) none
  | .ifElse test consequent (some alternative), path, marks =>
    .ifElse (test.rename ρ d marks) (consequent.rename (0 :: path) marks)
      (some (alternative.rename (1 :: path) marks))
  | .whileLoop test body, path, marks => .whileLoop (test.rename ρ d marks) (body.rename (0 :: path) marks)
  | .forLoop none test? step? body, path, marks =>
    let inner := false :: marks
    .forLoop none (test?.map (Expr.rename ρ d inner)) (step?.map (Expr.rename ρ d inner))
      (body.rename (0 :: path) inner)
  | .forLoop (some initial) test? step? body, path, marks =>
    let inner := ρ.owns path (Stmt.variables [initial]) :: marks
    .forLoop (some (initial.rename (0 :: path) inner)) (test?.map (Expr.rename ρ d inner))
      (step?.map (Expr.rename ρ d inner)) (body.rename (1 :: path) inner)
  | .breakLoop, _, _ => .breakLoop
  | .continueLoop, _, _ => .continueLoop
  | .funDecl decl, path, marks => .funDecl (decl.rename path marks)
  | .returnValue value? line, _, marks => .returnValue (value?.map (Expr.rename ρ d marks)) line
  | .classDecl name superclass? methods line, path, marks =>
    .classDecl name (superclass?.map (Use.rename ρ d marks))
      (FunctionDecl.renameAll methods path 0 (methodMarks superclass? marks)) line

def FunctionDecl.rename : FunctionDecl → (path : List Nat) → Marks → FunctionDecl
  | { name, params, body, line }, path, marks =>
    let own := ρ.owns path (params ++ Stmt.variables body)
    ⟨name, params.map (ρ.name own), Stmt.renameAll body path 0 (own :: marks), line⟩

def Stmt.renameAll : List Stmt → (path : List Nat) → (index : Nat) → Marks → List Stmt
  | [], _, _, _ => []
  | s :: ss, path, index, marks => s.rename (index :: path) marks :: Stmt.renameAll ss path (index + 1) marks

def FunctionDecl.renameAll : List FunctionDecl → (path : List Nat) → (index : Nat) → Marks → List FunctionDecl
  | [], _, _, _ => []
  | f :: fs, path, index, marks =>
    f.rename (index :: path) marks :: FunctionDecl.renameAll fs path (index + 1) marks

end

/-- A program with the variable renamed. At the top level names are global. -/
def Renaming.program (program : List Stmt) : List Stmt :=
  Stmt.renameAll ρ d program [] 0 []

/-! ### Any choice of scopes -/

mutual

/-- A statement and the same one with the names exchanged in some scopes. Functions and classes keep theirs. -/
inductive Stmt.Renamed : Marks → Stmt → Stmt → Prop
  | expr {marks : Marks} (value : Expr) : Stmt.Renamed marks (.expr value) (.expr (value.rename ρ d marks))
  | print {marks : Marks} (items : List Expr) (line : Nat) :
    Stmt.Renamed marks (.print items line) (.print (Expr.renameAll ρ d marks items) line)
  | varDecl {marks : Marks} (name : String) (initial? : Option Expr) (line : Nat) :
    Stmt.Renamed marks (.varDecl name initial? line)
      (.varDecl (ρ.name (marks.headD false) name) (initial?.map (Expr.rename ρ d marks)) line)
  | block {marks : Marks} (own : Bool) {body body' : List Stmt} :
    Stmt.RenamedAll (own :: marks) body body' → Stmt.Renamed marks (.block body) (.block body')
  | ifThen {marks : Marks} (test : Expr) {consequent consequent' : Stmt} :
    Stmt.Renamed marks consequent consequent' →
    Stmt.Renamed marks (.ifElse test consequent none) (.ifElse (test.rename ρ d marks) consequent' none)
  | ifElse {marks : Marks} (test : Expr) {consequent consequent' alternative alternative' : Stmt} :
    Stmt.Renamed marks consequent consequent' → Stmt.Renamed marks alternative alternative' →
    Stmt.Renamed marks (.ifElse test consequent (some alternative))
      (.ifElse (test.rename ρ d marks) consequent' (some alternative'))
  | whileLoop {marks : Marks} (test : Expr) {body body' : Stmt} :
    Stmt.Renamed marks body body' →
    Stmt.Renamed marks (.whileLoop test body) (.whileLoop (test.rename ρ d marks) body')
  | forLoop {marks : Marks} (own : Bool) (test? step? : Option Expr) {body body' : Stmt} :
    Stmt.Renamed (own :: marks) body body' →
    Stmt.Renamed marks (.forLoop none test? step? body)
      (.forLoop none (test?.map (Expr.rename ρ d (own :: marks))) (step?.map (Expr.rename ρ d (own :: marks)))
        body')
  | forFrom {marks : Marks} (own : Bool) {initial initial' : Stmt} (test? step? : Option Expr)
      {body body' : Stmt} :
    Stmt.Renamed (own :: marks) initial initial' → Stmt.Renamed (own :: marks) body body' →
    Stmt.Renamed marks (.forLoop (some initial) test? step? body)
      (.forLoop (some initial') (test?.map (Expr.rename ρ d (own :: marks)))
        (step?.map (Expr.rename ρ d (own :: marks))) body')
  | breakLoop {marks : Marks} : Stmt.Renamed marks .breakLoop .breakLoop
  | continueLoop {marks : Marks} : Stmt.Renamed marks .continueLoop .continueLoop
  | funDecl {marks : Marks} {decl decl' : FunctionDecl} :
    ρ.name (marks.headD false) decl.name = decl.name → FunctionDecl.Renamed marks decl decl' →
    Stmt.Renamed marks (.funDecl decl) (.funDecl decl')
  | returnValue {marks : Marks} (value? : Option Expr) (line : Nat) :
    Stmt.Renamed marks (.returnValue value? line) (.returnValue (value?.map (Expr.rename ρ d marks)) line)
  | classDecl {marks : Marks} {name : String} (superclass? : Option Use) {methods methods' : List FunctionDecl}
      (line : Nat) :
    ρ.name (marks.headD false) name = name →
    FunctionDecl.RenamedAll (methodMarks superclass? marks) methods methods' →
    Stmt.Renamed marks (.classDecl name superclass? methods line)
      (.classDecl name (superclass?.map (Use.rename ρ d marks)) methods' line)

inductive FunctionDecl.Renamed : Marks → FunctionDecl → FunctionDecl → Prop
  | decl {marks : Marks} (own : Bool) (name : String) (params : List String) {body body' : List Stmt}
      (line : Nat) :
    Stmt.RenamedAll (own :: marks) body body' →
    FunctionDecl.Renamed marks ⟨name, params, body, line⟩ ⟨name, params.map (ρ.name own), body', line⟩

inductive Stmt.RenamedAll : Marks → List Stmt → List Stmt → Prop
  | nil {marks : Marks} : Stmt.RenamedAll marks [] []
  | cons {marks : Marks} {s s' : Stmt} {ss ss' : List Stmt} :
    Stmt.Renamed marks s s' → Stmt.RenamedAll marks ss ss' → Stmt.RenamedAll marks (s :: ss) (s' :: ss')

inductive FunctionDecl.RenamedAll : Marks → List FunctionDecl → List FunctionDecl → Prop
  | nil {marks : Marks} : FunctionDecl.RenamedAll marks [] []
  | cons {marks : Marks} {f f' : FunctionDecl} {fs fs' : List FunctionDecl} :
    FunctionDecl.Renamed marks f f' → FunctionDecl.RenamedAll marks fs fs' →
    FunctionDecl.RenamedAll marks (f :: fs) (f' :: fs')

end

end Trees

section Renamed

variable {ρ : Renaming} {d : Distances} {marks : Marks}

/-! ### Nothing renamed -/

/-- No scope around a place has a variable that is renamed. -/
def Marks.Unmarked (marks : Marks) : Prop :=
  ∀ marked ∈ marks, marked = false

theorem Marks.Unmarked.enter (unmarked : marks.Unmarked) : Marks.Unmarked (false :: marks) := by
  intro marked member
  rcases List.mem_cons.mp member with rfl | member
  · rfl
  · exact unmarked marked member

theorem Marks.Unmarked.headD (unmarked : marks.Unmarked) : marks.headD false = false := by
  cases marks with
  | nil => rfl
  | cons marked marks => exact unmarked marked List.mem_cons_self

theorem Marks.Unmarked.methods (unmarked : marks.Unmarked) (superclass? : Option Use) :
    (methodMarks superclass? marks).Unmarked := by
  unfold methodMarks
  split
  · exact unmarked.enter.enter
  · exact unmarked.enter

theorem Marks.Unmarked.nameAt (unmarked : marks.Unmarked) (distance? : Option Nat) (name : String) :
    ρ.nameAt marks distance? name = name := by
  cases distance? with
  | none => rfl
  | some distance =>
    have off : marks.getD distance false = false := by
      rw [List.getD_eq_getElem?_getD]
      cases found : marks[distance]? with
      | none => rfl
      | some marked => exact unmarked marked (List.mem_of_getElem? found)
    rw [Renaming.nameAt, off, Renaming.name_unmarked]

theorem Use.rename_unmarked (unmarked : marks.Unmarked) (use : Use) : use.rename ρ d marks = use := by
  rw [Use.rename, unmarked.nameAt]

mutual

theorem Expr.rename_unmarked (unmarked : marks.Unmarked) : ∀ e : Expr, e.rename ρ d marks = e
  | .literal _ | .thisRef _ _ | .superRef _ _ _ => rfl
  | .group inner => by rw [Expr.rename, inner.rename_unmarked unmarked]
  | .unary _ operand _ => by rw [Expr.rename, operand.rename_unmarked unmarked]
  | .binary _ left right _ => by
    rw [Expr.rename, left.rename_unmarked unmarked, right.rename_unmarked unmarked]
  | .conditional test consequent alternative => by
    rw [Expr.rename, test.rename_unmarked unmarked, consequent.rename_unmarked unmarked,
      alternative.rename_unmarked unmarked]
  | .var use => by rw [Expr.rename, use.rename_unmarked unmarked]
  | .assign target value => by
    rw [Expr.rename, target.rename_unmarked unmarked, value.rename_unmarked unmarked]
  | .call callee arguments _ => by
    rw [Expr.rename, callee.rename_unmarked unmarked, Expr.renameAll_unmarked unmarked arguments]
  | .field object _ _ => by rw [Expr.rename, object.rename_unmarked unmarked]
  | .setField object _ value _ => by
    rw [Expr.rename, object.rename_unmarked unmarked, value.rename_unmarked unmarked]
  | .array elements => by rw [Expr.rename, Expr.renameAll_unmarked unmarked elements]
  | .element sequence index _ => by
    rw [Expr.rename, sequence.rename_unmarked unmarked, index.rename_unmarked unmarked]
  | .setElement sequence index value _ => by
    rw [Expr.rename, sequence.rename_unmarked unmarked, index.rename_unmarked unmarked,
      value.rename_unmarked unmarked]

theorem Expr.renameAll_unmarked (unmarked : marks.Unmarked) : ∀ es : List Expr, Expr.renameAll ρ d marks es = es
  | [] => rfl
  | e :: es => by rw [Expr.renameAll, e.rename_unmarked unmarked, Expr.renameAll_unmarked unmarked es]

end

theorem Expr.renameOpt_unmarked (unmarked : marks.Unmarked) (e? : Option Expr) :
    e?.map (Expr.rename ρ d marks) = e? := by
  cases e? with
  | none => rfl
  | some e => rw [Option.map_some, e.rename_unmarked unmarked]

mutual

/-- A tree is itself with nothing renamed. -/
theorem Stmt.Renamed.refl : ∀ (s : Stmt) {marks : Marks}, marks.Unmarked → s.Renamed ρ d marks s
  | .expr value, marks, unmarked => by
    have renamed : Stmt.Renamed ρ d marks _ _ := .expr value
    rwa [value.rename_unmarked unmarked] at renamed
  | .print items line, marks, unmarked => by
    have renamed : Stmt.Renamed ρ d marks _ _ := .print items line
    rwa [Expr.renameAll_unmarked unmarked] at renamed
  | .varDecl name initial? line, marks, unmarked => by
    have renamed : Stmt.Renamed ρ d marks _ _ := .varDecl name initial? line
    rwa [unmarked.headD, ρ.name_unmarked, Expr.renameOpt_unmarked unmarked] at renamed
  | .block body, marks, unmarked => .block false (Stmt.RenamedAll.refl body unmarked.enter)
  | .ifElse test consequent none, marks, unmarked => by
    have renamed : Stmt.Renamed ρ d marks _ _ := .ifThen test (.refl consequent unmarked)
    rwa [test.rename_unmarked unmarked] at renamed
  | .ifElse test consequent (some alternative), marks, unmarked => by
    have renamed : Stmt.Renamed ρ d marks _ _ := .ifElse test (.refl consequent unmarked)
      (.refl alternative unmarked)
    rwa [test.rename_unmarked unmarked] at renamed
  | .whileLoop test body, marks, unmarked => by
    have renamed : Stmt.Renamed ρ d marks _ _ := .whileLoop test (.refl body unmarked)
    rwa [test.rename_unmarked unmarked] at renamed
  | .forLoop none test? step? body, marks, unmarked => by
    have renamed : Stmt.Renamed ρ d marks _ _ := .forLoop false test? step? (.refl body unmarked.enter)
    rwa [Expr.renameOpt_unmarked unmarked.enter, Expr.renameOpt_unmarked unmarked.enter] at renamed
  | .forLoop (some initial) test? step? body, marks, unmarked => by
    have renamed : Stmt.Renamed ρ d marks _ _ := .forFrom false test? step? (.refl initial unmarked.enter)
      (.refl body unmarked.enter)
    rwa [Expr.renameOpt_unmarked unmarked.enter, Expr.renameOpt_unmarked unmarked.enter] at renamed
  | .breakLoop, _, _ => .breakLoop
  | .continueLoop, _, _ => .continueLoop
  | .funDecl decl, marks, unmarked => by
    refine .funDecl ?_ (FunctionDecl.Renamed.refl decl unmarked)
    rw [unmarked.headD, ρ.name_unmarked]
  | .returnValue value? line, marks, unmarked => by
    have renamed : Stmt.Renamed ρ d marks _ _ := .returnValue value? line
    rwa [Expr.renameOpt_unmarked unmarked] at renamed
  | .classDecl name superclass? methods line, marks, unmarked => by
    have named : ρ.name (marks.headD false) name = name := by rw [unmarked.headD, ρ.name_unmarked]
    have renamed : Stmt.Renamed ρ d marks _ _ := .classDecl superclass? line named
      (FunctionDecl.RenamedAll.refl methods (unmarked.methods superclass?))
    have superclass : superclass?.map (Use.rename ρ d marks) = superclass? := by
      cases superclass? with
      | none => rfl
      | some use => rw [Option.map_some, use.rename_unmarked unmarked]
    rwa [superclass] at renamed

theorem FunctionDecl.Renamed.refl : ∀ (f : FunctionDecl) {marks : Marks}, marks.Unmarked → f.Renamed ρ d marks f
  | { name, params, body, line }, marks, unmarked => by
    have renamed : FunctionDecl.Renamed ρ d marks _ _ := .decl false name params line
      (Stmt.RenamedAll.refl body unmarked.enter)
    rwa [List.map_id'' ρ.name_unmarked] at renamed

theorem Stmt.RenamedAll.refl : ∀ (ss : List Stmt) {marks : Marks}, marks.Unmarked →
    Stmt.RenamedAll ρ d marks ss ss
  | [], _, _ => .nil
  | s :: ss, _, unmarked => .cons (.refl s unmarked) (Stmt.RenamedAll.refl ss unmarked)

theorem FunctionDecl.RenamedAll.refl : ∀ (fs : List FunctionDecl) {marks : Marks}, marks.Unmarked →
    FunctionDecl.RenamedAll ρ d marks fs fs
  | [], _, _ => .nil
  | f :: fs, _, unmarked => .cons (.refl f unmarked) (FunctionDecl.RenamedAll.refl fs unmarked)

end

/-! ### The grammar -/

theorem Expr.rename_level (e : Expr) : (e.rename ρ d marks).level = e.level := by
  cases e <;> rfl

theorem Expr.le_rename_level {level : Level} {e : Expr} (le : level ≤ e.level) :
    level ≤ (e.rename ρ d marks).level := by
  rwa [e.rename_level]

mutual

theorem Expr.rename_stratified : ∀ e : Expr, e.Stratified → (e.rename ρ d marks).Stratified
  | .literal _, _ | .var _, _ | .thisRef _ _, _ | .superRef _ _ _, _ => trivial
  | .group inner, strata => inner.rename_stratified strata
  | .unary _ operand _, ⟨le, strata⟩ => ⟨le_rename_level le, operand.rename_stratified strata⟩
  | .binary _ left right _, ⟨⟨le, strata⟩, le', strata'⟩ =>
    ⟨⟨le_rename_level le, left.rename_stratified strata⟩, le_rename_level le', right.rename_stratified strata'⟩
  | .conditional test consequent alternative, ⟨⟨le, strata⟩, ⟨le', strata'⟩, le'', strata''⟩ =>
    ⟨⟨le_rename_level le, test.rename_stratified strata⟩,
      ⟨le_rename_level le', consequent.rename_stratified strata'⟩,
      le_rename_level le'', alternative.rename_stratified strata''⟩
  | .assign _ value, ⟨le, strata⟩ => ⟨le_rename_level le, value.rename_stratified strata⟩
  | .call callee arguments _, ⟨⟨le, strata⟩, others⟩ =>
    ⟨⟨le_rename_level le, callee.rename_stratified strata⟩, Expr.renameAll_stratified arguments others⟩
  | .field object _ _, ⟨le, strata⟩ => ⟨le_rename_level le, object.rename_stratified strata⟩
  | .setField object _ value _, ⟨⟨le, strata⟩, le', strata'⟩ =>
    ⟨⟨le_rename_level le, object.rename_stratified strata⟩, le_rename_level le',
      value.rename_stratified strata'⟩
  | .array elements, strata => Expr.renameAll_stratified elements strata
  | .element sequence index _, ⟨⟨le, strata⟩, strata'⟩ =>
    ⟨⟨le_rename_level le, sequence.rename_stratified strata⟩, index.rename_stratified strata'⟩
  | .setElement sequence index value _, ⟨⟨le, strata⟩, strata', le', strata''⟩ =>
    ⟨⟨le_rename_level le, sequence.rename_stratified strata⟩, index.rename_stratified strata',
      le_rename_level le', value.rename_stratified strata''⟩

theorem Expr.renameAll_stratified : ∀ es : List Expr, Expr.StratifiedAll es →
    Expr.StratifiedAll (Expr.renameAll ρ d marks es)
  | [], _ => trivial
  | e :: es, ⟨⟨le, strata⟩, others⟩ =>
    ⟨⟨le_rename_level le, e.rename_stratified strata⟩, Expr.renameAll_stratified es others⟩

end

theorem Expr.renameOpt_stratified {e? : Option Expr} (strata : Expr.StratifiedOpt e?) :
    Expr.StratifiedOpt (e?.map (Expr.rename ρ d marks)) := by
  intro e found
  obtain ⟨given, same, rfl⟩ := Option.map_eq_some_iff.mp found
  exact given.rename_stratified (strata given same)

theorem Expr.renameAll_ne_nil {es : List Expr} (some_ : es ≠ []) : Expr.renameAll ρ d marks es ≠ [] := by
  cases es with
  | nil => exact absurd rfl some_
  | cons e es => exact List.cons_ne_nil _ _

theorem Stmt.Renamed.plain {s s' : Stmt} (renamed : s.Renamed ρ d marks s') (plain : s.Plain) : s'.Plain := by
  cases renamed <;> first | exact trivial | exact plain

theorem Stmt.Renamed.initial {s s' : Stmt} (renamed : s.Renamed ρ d marks s') (initial : s.Initial) :
    s'.Initial := by
  cases renamed <;> first | exact trivial | exact initial

theorem Stmt.Renamed.endsOpen : ∀ (s : Stmt) {s' : Stmt} {marks : Marks}, s.Renamed ρ d marks s' →
    s'.endsOpen = s.endsOpen
  | .ifElse _ _ (some alternative), _, _, .ifElse _ _ second => (second.endsOpen alternative :)
  | .whileLoop _ body, _, _, .whileLoop _ inner => (inner.endsOpen body :)
  | .forLoop none _ _ body, _, _, .forLoop _ _ _ inner => (inner.endsOpen body :)
  | .forLoop (some _) _ _ body, _, _, .forFrom _ _ _ _ inner => (inner.endsOpen body :)
  | .ifElse _ _ none, _, _, .ifThen _ _ => rfl
  | .expr _, _, _, .expr _ | .print _ _, _, _, .print _ _ | .varDecl _ _ _, _, _, .varDecl _ _ _
  | .block _, _, _, .block _ _ | .breakLoop, _, _, .breakLoop | .continueLoop, _, _, .continueLoop
  | .funDecl _, _, _, .funDecl _ _ | .returnValue _ _, _, _, .returnValue _ _
  | .classDecl _ _ _ _, _, _, .classDecl _ _ _ _ => rfl

mutual

/-- A program of the grammar is one with the names exchanged. -/
theorem Stmt.Renamed.stratified : ∀ (s : Stmt) {s' : Stmt} {marks : Marks}, s.Renamed ρ d marks s' →
    s.Stratified → s'.Stratified
  | .expr value, _, _, .expr _, strata => value.rename_stratified strata
  | .print items _, _, _, .print _ _, ⟨some_, strata⟩ =>
    ⟨Expr.renameAll_ne_nil some_, Expr.renameAll_stratified items strata⟩
  | .varDecl _ _ _, _, _, .varDecl _ _ _, strata => Expr.renameOpt_stratified strata
  | .block body, _, _, .block _ inner, strata => Stmt.RenamedAll.stratified body inner strata
  | .ifElse test consequent none, _, _, .ifThen _ first, ⟨strata, plain, strata'⟩ =>
    ⟨test.rename_stratified strata, first.plain plain, first.stratified consequent strata'⟩
  | .ifElse test consequent (some alternative), _, _, .ifElse _ first second,
      ⟨strata, ⟨plain, strata', closed⟩, plain', strata''⟩ =>
    ⟨test.rename_stratified strata,
      ⟨first.plain plain, first.stratified consequent strata', (first.endsOpen consequent).trans closed⟩,
      second.plain plain', second.stratified alternative strata''⟩
  | .whileLoop test body, _, _, .whileLoop _ inner, ⟨strata, plain, strata'⟩ =>
    ⟨test.rename_stratified strata, inner.plain plain, inner.stratified body strata'⟩
  | .forLoop none _ _ body, _, _, .forLoop _ _ _ inner, ⟨test, step, plain, strata⟩ =>
    ⟨Expr.renameOpt_stratified test, Expr.renameOpt_stratified step, inner.plain plain,
      inner.stratified body strata⟩
  | .forLoop (some initial) _ _ body, _, _, .forFrom _ _ _ first inner,
      ⟨⟨clause, strata⟩, test, step, plain, strata'⟩ =>
    ⟨⟨first.initial clause, first.stratified initial strata⟩, Expr.renameOpt_stratified test,
      Expr.renameOpt_stratified step, inner.plain plain, inner.stratified body strata'⟩
  | .breakLoop, _, _, .breakLoop, _ | .continueLoop, _, _, .continueLoop, _ => trivial
  | .funDecl decl, _, _, .funDecl _ inner, strata => inner.stratified decl strata
  | .returnValue _ _, _, _, .returnValue _ _, strata => Expr.renameOpt_stratified strata
  | .classDecl _ _ methods _, _, _, .classDecl _ _ _ inner, strata =>
    FunctionDecl.RenamedAll.stratified methods inner strata

theorem FunctionDecl.Renamed.stratified : ∀ (f : FunctionDecl) {f' : FunctionDecl} {marks : Marks},
    f.Renamed ρ d marks f' → f.Stratified → f'.Stratified
  | { name := _, params := _, body, line := _ }, _, _, .decl _ _ _ _ inner, strata =>
    Stmt.RenamedAll.stratified body inner strata

theorem Stmt.RenamedAll.stratified : ∀ (ss : List Stmt) {ss' : List Stmt} {marks : Marks},
    Stmt.RenamedAll ρ d marks ss ss' → Stmt.StratifiedAll ss → Stmt.StratifiedAll ss'
  | [], _, _, .nil, _ => trivial
  | s :: ss, _, _, .cons first others, ⟨strata, strata'⟩ =>
    ⟨first.stratified s strata, Stmt.RenamedAll.stratified ss others strata'⟩

theorem FunctionDecl.RenamedAll.stratified : ∀ (fs : List FunctionDecl) {fs' : List FunctionDecl} {marks : Marks},
    FunctionDecl.RenamedAll ρ d marks fs fs' → FunctionDecl.StratifiedAll fs → FunctionDecl.StratifiedAll fs'
  | [], _, _, .nil, _ => trivial
  | f :: fs, _, _, .cons first others, ⟨strata, strata'⟩ =>
    ⟨first.stratified f strata, FunctionDecl.RenamedAll.stratified fs others strata'⟩

end

mutual

theorem Stmt.Renamed.placed : ∀ (s : Stmt) {s' : Stmt} {marks : Marks} {inLoop inFunction : Bool},
    s.Renamed ρ d marks s' → s.Placed inLoop inFunction → s'.Placed inLoop inFunction
  | .expr _, _, _, _, _, .expr _, _ | .print _ _, _, _, _, _, .print _ _, _
  | .varDecl _ _ _, _, _, _, _, .varDecl _ _ _, _ => trivial
  | .block body, _, _, _, _, .block _ inner, placed => Stmt.RenamedAll.placed body inner placed
  | .ifElse _ consequent none, _, _, _, _, .ifThen _ first, placed => first.placed consequent placed
  | .ifElse _ consequent (some alternative), _, _, _, _, .ifElse _ first second, ⟨placed, placed'⟩ =>
    ⟨first.placed consequent placed, second.placed alternative placed'⟩
  | .whileLoop _ body, _, _, _, _, .whileLoop _ inner, placed => inner.placed body placed
  | .forLoop none _ _ body, _, _, _, _, .forLoop _ _ _ inner, placed => inner.placed body placed
  | .forLoop (some initial) _ _ body, _, _, _, _, .forFrom _ _ _ first inner, ⟨placed, placed'⟩ =>
    ⟨first.placed initial placed, inner.placed body placed'⟩
  | .breakLoop, _, _, _, _, .breakLoop, placed | .continueLoop, _, _, _, _, .continueLoop, placed
  | .returnValue _ _, _, _, _, _, .returnValue _ _, placed => placed
  | .funDecl decl, _, _, _, _, .funDecl _ inner, placed => inner.placed decl placed
  | .classDecl _ _ methods _, _, _, _, _, .classDecl _ _ _ inner, placed =>
    FunctionDecl.RenamedAll.placed methods inner placed

theorem FunctionDecl.Renamed.placed : ∀ (f : FunctionDecl) {f' : FunctionDecl} {marks : Marks},
    f.Renamed ρ d marks f' → f.Placed → f'.Placed
  | { name := _, params := _, body, line := _ }, _, _, .decl _ _ _ _ inner, placed =>
    Stmt.RenamedAll.placed body inner placed

theorem Stmt.RenamedAll.placed : ∀ (ss : List Stmt) {ss' : List Stmt} {marks : Marks} {inLoop inFunction : Bool},
    Stmt.RenamedAll ρ d marks ss ss' → Stmt.PlacedAll inLoop inFunction ss → Stmt.PlacedAll inLoop inFunction ss'
  | [], _, _, _, _, .nil, _ => trivial
  | s :: ss, _, _, _, _, .cons first others, ⟨placed, placed'⟩ =>
    ⟨first.placed s placed, Stmt.RenamedAll.placed ss others placed'⟩

theorem FunctionDecl.RenamedAll.placed : ∀ (fs : List FunctionDecl) {fs' : List FunctionDecl} {marks : Marks},
    FunctionDecl.RenamedAll ρ d marks fs fs' → FunctionDecl.PlacedAll fs → FunctionDecl.PlacedAll fs'
  | [], _, _, .nil, _ => trivial
  | f :: fs, _, _, .cons first others, ⟨placed, placed'⟩ =>
    ⟨first.placed f placed, FunctionDecl.RenamedAll.placed fs others placed'⟩

end

/-! ### One declaration of a name -/

/-- The name of the function or class that a statement declares. -/
def Stmt.fixed? : Stmt → Option String
  | .funDecl decl => some decl.name
  | .classDecl name _ _ _ => some name
  | _ => none

def Stmt.declared? (s : Stmt) : Option String :=
  s.varName?.or s.fixed?

theorem Stmt.declared?_of_varName {s : Stmt} {name : String} (own : s.varName? = some name) :
    s.declared? = some name := by
  rw [Stmt.declared?, own]
  rfl

theorem Stmt.declared?_of_fixed {s : Stmt} {name : String} (own : s.fixed? = some name) :
    s.declared? = some name := by
  cases s with
  | funDecl _ | classDecl _ _ _ _ => exact own
  | _ => cases own

theorem Stmt.after_declared (s : Stmt) (p : Place) (chain : List Place) :
    ∃ q : Place, s.after (p :: chain) = q :: chain ∧
      ∀ name, name ∈ q.names ↔ s.declared? = some name ∨ name ∈ p.names := by
  cases s with
  | varDecl _ _ _ | funDecl _ | classDecl _ _ _ _ =>
    refine ⟨_, rfl, fun name => ?_⟩
    simp [Stmt.declared?, Stmt.varName?, Stmt.fixed?, eq_comm]
  | _ =>
    refine ⟨p, rfl, fun name => ?_⟩
    simp [Stmt.declared?, Stmt.varName?, Stmt.fixed?]

variable {r : Resolution} {p : Place} {chain : List Place}

theorem Resolves.clean {r' : Resolution} {chain after : List Place} {sites : List Site}
    (resolves : Resolves r r' chain after sites) (clean : r'.diagnostics = []) : r.diagnostics = [] :=
  List.prefix_nil.mp (clean ▸ resolves.kept)

/-- A name is declared once in a scope. -/
theorem not_mem_of_declare {name : String} {line : Nat} (knows : Knows none r.scopes (p :: chain))
    (clean : (r.declare name line).diagnostics = []) : name ∉ p.names := by
  intro member
  match scopes : r.scopes with
  | [] => simp [scopes, Knows] at knows
  | scope :: outer =>
    rw [scopes] at knows
    have twice : r.declares name = true := by
      simp [Resolution.declares, scopes, Table.has, knows.1 name, member]
    simp [Resolution.declare, twice, Resolution.report] at clean

theorem enterClass_declares {name : String} {superclass? : Option Use} {line : Nat}
    (clean : (enterClass name superclass? line r).diagnostics = []) :
    ({ r with classKind := .base }.declare name line).diagnostics = [] := by
  unfold enterClass at clean
  cases superclass? with
  | none =>
    rw [define_diagnostics] at clean
    rwa [← define_diagnostics _ name]
  | some use =>
    dsimp only at clean
    rw [define_diagnostics] at clean
    change (Resolution.define (Resolution.openScope _) superName).diagnostics = [] at clean
    rw [define_diagnostics] at clean
    have before := (walked_read use).clean clean
    split at before
    · simp [Resolution.report] at before
    · rwa [← define_diagnostics _ name]

/-- What a statement declares was not declared in front of it. -/
theorem Stmt.declared_new {s : Stmt} {name : String} (strata : s.Stratified) (lexical : Lexical s.tokens)
    (knows : Knows none r.scopes (p :: chain)) (clean : (s.resolve r).diagnostics = [])
    (own : s.declared? = some name) : name ∉ p.names := by
  cases s with
  | varDecl other initial? line =>
    obtain rfl := Option.some.inj own
    change (Resolution.define _ other).diagnostics = [] at clean
    rw [define_diagnostics] at clean
    exact not_mem_of_declare knows ((Expr.walkedOpt initial? _).clean clean)
  | funDecl decl =>
    obtain rfl := Option.some.inj own
    simp [Stmt.tokens] at lexical
    have before := (decl.resolves .function _ (p :: chain) strata lexical).clean clean
    rw [define_diagnostics] at before
    exact not_mem_of_declare knows before
  | classDecl other superclass? methods line =>
    obtain rfl := Option.some.inj own
    simp [Stmt.tokens] at lexical
    have inside : (FunctionDecl.resolveMethods methods (enterClass other superclass? line r)).diagnostics = [] := by
      cases superclass? <;> exact clean
    have before := (FunctionDecl.resolvesAll methods _ chain strata lexical.2.2).clean inside
    have declared := enterClass_declares before
    exact not_mem_of_declare (r := { r with classKind := .base }) knows declared
  | _ => cases own

/-- No variable has the name of a function or class of its scope. -/
theorem Stmt.declared_once : ∀ (ss : List Stmt) (r : Resolution) (p : Place), Stmt.StratifiedAll ss →
    Lexical (Stmt.tokensAll ss) → Knows none r.scopes (p :: chain) → (Stmt.resolveAll ss r).diagnostics = [] →
    (∀ s ∈ ss, ∀ name, s.declared? = some name → name ∉ p.names) ∧
    ∀ s ∈ ss, ∀ t ∈ ss, ∀ name, s.varName? = some name → t.fixed? ≠ some name
  | [], _, _, _, _, _, _ => by simp
  | u :: ss, r, p, ⟨strata, others⟩, lexical, knows, clean => by
    simp [Stmt.tokensAll] at lexical
    have first := u.resolves r (p :: chain) strata lexical.1
    have clean' := (Stmt.resolvesAll ss (u.resolve r) (u.after (p :: chain)) others lexical.2).clean clean
    have new (name : String) (own : u.declared? = some name) : name ∉ p.names :=
      Stmt.declared_new strata lexical.1 knows clean' own
    obtain ⟨q, after, names⟩ := u.after_declared p chain
    have behind := first.knows clean' knows
    rw [after] at behind
    obtain ⟨apart, once⟩ := Stmt.declared_once ss _ q others lexical.2 behind clean
    refine ⟨fun s member name own => ?_, fun s member t member' name own fixed => ?_⟩
    · rcases List.mem_cons.mp member with rfl | member
      · exact new name own
      · exact fun inside => apart s member name own ((names name).mpr (Or.inr inside))
    · rcases List.mem_cons.mp member with rfl | inside <;> rcases List.mem_cons.mp member' with rfl | inside'
      · cases t <;> simp [Stmt.varName?, Stmt.fixed?] at own fixed
      · exact apart t inside' name (Stmt.declared?_of_fixed fixed)
          ((names name).mpr (Or.inl (Stmt.declared?_of_varName own)))
      · exact apart s inside name (Stmt.declared?_of_varName own)
          ((names name).mpr (Or.inl (Stmt.declared?_of_fixed fixed)))
      · exact once s inside t inside' name own fixed

/-! ### The choice of one scope -/

/-- The new name stands nowhere among some tokens. -/
def Renaming.Absent (ρ : Renaming) (ts : List Token) : Prop :=
  .identifier ρ.new ∉ ts

theorem Renaming.owns_mem {path : List Nat} {names : List String} (owns : ρ.owns path names = true) :
    ρ.old ∈ names := by
  simp [Renaming.owns] at owns
  exact owns.2

/-- Where the variable is of a body, no function or class of the body has its name. -/
theorem fixed_of_owns {body : List Stmt} {path : List Nat}
    (strata : Stmt.StratifiedAll body) (lexical : Lexical (Stmt.tokensAll body))
    (knows : Knows none r.scopes (p :: chain)) (clean : (Stmt.resolveAll body r).diagnostics = [])
    (owns : ρ.owns path (p.names ++ Stmt.variables body) = true) : ∀ s ∈ body, s.fixed? ≠ some ρ.old := by
  obtain ⟨apart, once⟩ := Stmt.declared_once body r p strata lexical knows clean
  intro t member fixed
  rcases List.mem_append.mp (ρ.owns_mem owns) with param | variable_
  · exact apart t member ρ.old (Stmt.declared?_of_fixed fixed) param
  · obtain ⟨s, inside, own⟩ := List.mem_filterMap.mp variable_
    exact once s inside t member ρ.old own fixed

theorem Stmt.fixed?_of_plain {s : Stmt} (plain : s.Plain) : s.fixed? = none := by
  cases s with
  | funDecl _ | classDecl _ _ _ _ => exact plain.elim
  | _ => rfl

theorem Stmt.fixed?_of_initial {s : Stmt} (initial : s.Initial) : s.fixed? = none := by
  cases s with
  | funDecl _ | classDecl _ _ _ _ => exact initial.elim
  | _ => rfl

theorem name_of_fixed {name : String} (other : marks.headD false = true → name ≠ ρ.old) (absent : name ≠ ρ.new) :
    ρ.name (marks.headD false) name = name := by
  cases marked : marks.headD false with
  | false => rfl
  | true => exact ρ.name_other (other marked) absent true

mutual

/-- With the variable renamed a statement without errors is one with the names exchanged in its scope. -/
theorem Stmt.rename_renamed : ∀ (s : Stmt) (r : Resolution) (chain : List Place) (path : List Nat) (marks : Marks),
    s.Stratified → Lexical s.tokens → ρ.Absent s.tokens → Knows none r.scopes chain →
    (s.resolve r).diagnostics = [] → (marks.headD false = true → s.fixed? ≠ some ρ.old) →
    s.Renamed ρ d marks (s.rename ρ d path marks)
  | .expr value, _, _, _, _, _, _, _, _, _, _ => .expr value
  | .print items line, _, _, _, _, _, _, _, _, _, _ => .print items line
  | .varDecl name initial? line, _, _, _, _, _, _, _, _, _, _ => .varDecl name initial? line
  | .block body, r, chain, path, marks, strata, lexical, absent, knows, clean, _ => by
    simp [Stmt.tokens] at lexical
    simp [Stmt.tokens, Renaming.Absent] at absent
    have inside : Knows none r.openScope.scopes (⟨.stmt (.block body), []⟩ :: chain) := knows_open _ knows
    refine .block _ (Stmt.renameAll_renamed body _ _ path 0 _ strata lexical absent inside clean ?_)
    intro own
    exact fixed_of_owns strata lexical inside clean own
  | .ifElse test consequent none, r, chain, path, marks, ⟨_, plain, strata⟩, lexical, absent, knows, clean, _ => by
    simp [Stmt.tokens] at lexical
    simp [Stmt.tokens, Renaming.Absent] at absent
    have tested := (consequent.resolves (test.resolve r) chain strata lexical.2).clean clean
    have before := ((test.walked r).resolves chain).knows tested knows
    refine .ifThen test (consequent.rename_renamed _ chain _ marks strata lexical.2 absent.2 before clean ?_)
    simp [Stmt.fixed?_of_plain plain]
  | .ifElse test consequent (some alternative), r, chain, path, marks, ⟨_, ⟨plain, strata, _⟩, plain', strata'⟩,
      lexical, absent, knows, clean, _ => by
    simp [Stmt.tokens] at lexical
    simp [Stmt.tokens, Renaming.Absent] at absent
    have first := consequent.resolves (test.resolve r) chain strata lexical.2.1
    rw [Stmt.after_plain plain] at first
    have clean' := (alternative.resolves _ chain strata' lexical.2.2).clean clean
    have before := ((test.walked r).resolves chain).knows (first.clean clean') knows
    refine .ifElse test
      (consequent.rename_renamed _ chain _ marks strata lexical.2.1 absent.2.1 before clean' ?_)
      (alternative.rename_renamed _ chain _ marks strata' lexical.2.2 absent.2.2 (first.knows clean' before)
        clean ?_)
    · simp [Stmt.fixed?_of_plain plain]
    · simp [Stmt.fixed?_of_plain plain']
  | .whileLoop test body, r, chain, path, marks, ⟨_, plain, strata⟩, lexical, absent, knows, clean, _ => by
    simp [Stmt.tokens] at lexical
    simp [Stmt.tokens, Renaming.Absent] at absent
    have tested := (body.resolves (test.resolve r) chain strata lexical.2).clean clean
    have before := ((test.walked r).resolves chain).knows tested knows
    refine .whileLoop test (body.rename_renamed _ chain _ marks strata lexical.2 absent.2 before clean ?_)
    simp [Stmt.fixed?_of_plain plain]
  | .forLoop none test? step? body, r, chain, path, marks, ⟨_, _, plain, strata⟩, lexical, absent, knows,
      clean, _ => by
    simp [Stmt.tokens] at lexical
    simp [Stmt.tokens, Renaming.Absent] at absent
    let inner : List Place := ⟨.stmt (.forLoop none test? step? body), []⟩ :: chain
    have conditions := ((Expr.walkedOpt test? r.openScope).append (Expr.walkedOpt step? _)).resolves inner
    have tested := (body.resolves _ inner strata lexical.2.2).clean clean
    have before := conditions.knows tested (knows_open _ knows)
    refine .forLoop false test? step?
      (body.rename_renamed _ inner _ _ strata lexical.2.2 absent.2.2 before clean ?_)
    simp [Stmt.fixed?_of_plain plain]
  | .forLoop (some initial) test? step? body, r, chain, path, marks, ⟨⟨clause, strata⟩, _, _, plain, strata'⟩,
      lexical, absent, knows, clean, _ => by
    simp [Stmt.tokens] at lexical
    simp [Stmt.tokens, Renaming.Absent] at absent
    let outer : List Place := ⟨.stmt (.forLoop (some initial) test? step? body), []⟩ :: chain
    have first := initial.resolves r.openScope outer strata lexical.1
    have conditions := ((Expr.walkedOpt test? (initial.resolve r.openScope)).append
      (Expr.walkedOpt step? _)).resolves (initial.after outer)
    have tested := (body.resolves _ (initial.after outer) strata' lexical.2.2.2).clean clean
    have started := conditions.clean tested
    have opened : Knows none r.openScope.scopes outer := knows_open _ knows
    have before := conditions.knows tested (first.knows started opened)
    refine .forFrom _ test? step?
      (initial.rename_renamed _ outer _ _ strata lexical.1 absent.1 opened started ?_)
      (body.rename_renamed _ _ _ _ strata' lexical.2.2.2 absent.2.2.2 before clean ?_)
    · simp [Stmt.fixed?_of_initial clause]
    · simp [Stmt.fixed?_of_plain plain]
  | .breakLoop, _, _, _, _, _, _, _, _, _, _ => .breakLoop
  | .continueLoop, _, _, _, _, _, _, _, _, _, _ => .continueLoop
  | .funDecl decl, r, chain, path, marks, strata, lexical, absent, knows, clean, fixed => by
    simp [Stmt.tokens] at lexical
    simp [Stmt.tokens, Renaming.Absent] at absent
    have declared := resolves_declared r decl.name decl.line chain
    have before := (decl.resolves .function _ (declareName decl.name chain) strata lexical).clean clean
    refine .funDecl (name_of_fixed (fun own same => fixed own (congrArg some same)) ?_)
      (decl.rename_renamed .function _ _ path marks strata lexical absent (declared.knows before knows) clean)
    rintro same
    exact absent (by cases decl; simp [FunctionDecl.tokens, ← same])
  | .returnValue value? line, _, _, _, _, _, _, _, _, _, _ => .returnValue value? line
  | .classDecl name superclass? methods line, r, chain, path, marks, strata, lexical, absent, knows, clean,
      fixed => by
    simp [Stmt.tokens] at lexical
    simp [Stmt.tokens, Renaming.Absent] at absent
    let decl := Stmt.classDecl name superclass? methods line
    have entered := resolves_enterClass decl name superclass? line r chain
    have inside : (FunctionDecl.resolveMethods methods (enterClass name superclass? line r)).diagnostics = [] := by
      cases superclass? <;> exact clean
    have before := (FunctionDecl.resolvesAll methods _ (boundChain decl name superclass? chain) strata
      lexical.2.2).clean inside
    exact .classDecl superclass? line
      (name_of_fixed (fun own same => fixed own (congrArg some same)) (Ne.symm absent.1))
      (FunctionDecl.renameAll_renamed methods _ _ path 0 _ strata lexical.2.2 absent.2.2
        (entered.knows before knows) inside)

theorem FunctionDecl.rename_renamed : ∀ (f : FunctionDecl) (kind : FunctionKind) (r : Resolution)
    (chain : List Place) (path : List Nat) (marks : Marks), f.Stratified → Lexical f.tokens → ρ.Absent f.tokens →
    Knows none r.scopes chain → (f.resolve kind r).diagnostics = [] →
    f.Renamed ρ d marks (f.rename ρ d path marks)
  | { name, params, body, line }, kind, r, chain, path, marks, strata, lexical, absent, knows, clean => by
    simp [FunctionDecl.tokens] at lexical
    simp [FunctionDecl.tokens, Renaming.Absent] at absent
    let scope := ScopeSite.function ⟨name, params, body, line⟩
    let opened := { r with functionKind := kind }.openScope
    have before := (Stmt.resolvesAll body (declareParams params line opened) (⟨scope, params⟩ :: chain) strata
      lexical.2.2).clean clean
    have inside := (resolves_params params line opened chain scope [] params (by simp)).knows before
      (knows_open scope knows)
    refine .decl _ name params line (Stmt.renameAll_renamed body _ _ path 0 _ strata lexical.2.2 absent.2.2 inside
      clean ?_)
    intro own
    exact fixed_of_owns strata lexical.2.2 inside clean own

theorem Stmt.renameAll_renamed : ∀ (ss : List Stmt) (r : Resolution) (chain : List Place) (path : List Nat)
    (index : Nat) (marks : Marks), Stmt.StratifiedAll ss → Lexical (Stmt.tokensAll ss) →
    ρ.Absent (Stmt.tokensAll ss) → Knows none r.scopes chain → (Stmt.resolveAll ss r).diagnostics = [] →
    (marks.headD false = true → ∀ s ∈ ss, s.fixed? ≠ some ρ.old) →
    Stmt.RenamedAll ρ d marks ss (Stmt.renameAll ρ d ss path index marks)
  | [], _, _, _, _, _, _, _, _, _, _, _ => .nil
  | s :: ss, r, chain, path, index, marks, ⟨strata, others⟩, lexical, absent, knows, clean, fixed => by
    simp [Stmt.tokensAll] at lexical
    simp [Stmt.tokensAll, Renaming.Absent] at absent
    have between := (Stmt.resolvesAll ss (s.resolve r) (s.after chain) others lexical.2).clean clean
    have behind := (s.resolves r chain strata lexical.1).knows between knows
    exact .cons
      (s.rename_renamed r chain _ marks strata lexical.1 absent.1 knows between fun own => fixed own s List.mem_cons_self)
      (Stmt.renameAll_renamed ss _ _ path _ marks others lexical.2 absent.2 behind clean
        fun own t member => fixed own t (List.mem_cons_of_mem _ member))

theorem FunctionDecl.renameAll_renamed : ∀ (fs : List FunctionDecl) (r : Resolution) (chain : List Place)
    (path : List Nat) (index : Nat) (marks : Marks), FunctionDecl.StratifiedAll fs →
    Lexical (FunctionDecl.tokensAll fs) → ρ.Absent (FunctionDecl.tokensAll fs) → Knows none r.scopes chain →
    (FunctionDecl.resolveMethods fs r).diagnostics = [] →
    FunctionDecl.RenamedAll ρ d marks fs (FunctionDecl.renameAll ρ d fs path index marks)
  | [], _, _, _, _, _, _, _, _, _, _ => .nil
  | f :: fs, r, chain, path, index, marks, ⟨strata, others⟩, lexical, absent, knows, clean => by
    simp [FunctionDecl.tokensAll] at lexical
    simp [FunctionDecl.tokensAll, Renaming.Absent] at absent
    have between := (FunctionDecl.resolvesAll fs (f.resolve (.ofMethod f.name) r) chain others lexical.2).clean clean
    have behind := (f.resolves (.ofMethod f.name) r chain strata lexical.1).knows between knows
    exact .cons (f.rename_renamed _ r chain _ marks strata lexical.1 absent.1 knows between)
      (FunctionDecl.renameAll_renamed fs _ _ path _ marks others lexical.2 absent.2 behind clean)

end

end Renamed

end Lox
