import Lox.Proofs.Scope.Sites
import Lox.Proofs.Syntax.Progress

/-!
Each reference has an id of its own. Ids are handed out in the order of the text, so those of a phrase
ascend and lie between the next id in front of it and the next id behind it.
-/

namespace Lox

open Parse

variable {c next : Cursor} {n : Nat}

/-! ### Ascending ids -/

/-- Ids that ascend from one bound to another one, which is not among them. -/
structure Ascending (lo hi : Nat) (ids : List Nat) : Prop where
  le : lo ≤ hi
  ordered : ids.Pairwise (· < ·)
  within : ∀ id ∈ ids, lo ≤ id ∧ id < hi

namespace Ascending

variable {lo mid hi : Nat} {as bs : List Nat}

theorem nil (le : lo ≤ hi) : Ascending lo hi [] :=
  ⟨le, .nil, fun _ member => nomatch member⟩

theorem append (first : Ascending lo mid as) (second : Ascending mid hi bs) :
    Ascending lo hi (as ++ bs) := by
  refine ⟨Nat.le_trans first.le second.le, ?_, ?_⟩
  · refine List.pairwise_append.mpr ⟨first.ordered, second.ordered, ?_⟩
    intro a before b behind
    have below := (first.within a before).2
    have above := (second.within b behind).1
    omega
  · intro id member
    have le₁ := first.le
    have le₂ := second.le
    rcases List.mem_append.mp member with before | behind
    · have inside := first.within id before
      omega
    · have inside := second.within id behind
      omega

theorem fresh (lo : Nat) : Ascending lo (lo + 1) [lo] := by
  refine ⟨by omega, List.pairwise_singleton _ _, ?_⟩
  intro id member
  rw [List.mem_singleton.mp member]
  omega

theorem nodup (ascending : Ascending lo hi as) : as.Nodup :=
  ascending.ordered.imp fun less => Nat.ne_of_lt less

theorem extend (first : Ascending lo mid as) (le : mid ≤ hi) : Ascending lo hi as := by
  have all := first.append (nil le)
  rwa [List.append_nil] at all

end Ascending

/-- The ids of references in order. -/
def referenceIds (references : List Reference) : List Nat :=
  references.map (·.id)

theorem referenceIds_append (as bs : List Reference) :
    referenceIds (as ++ bs) = referenceIds as ++ referenceIds bs :=
  List.map_append

theorem siteIds_append (as bs : List Site) : siteIds (as ++ bs) = siteIds as ++ siteIds bs :=
  List.map_append

theorem siteIds_sitesIn (chain : List Place) (pending? : Option String) (references : List Reference) :
    siteIds (sitesIn chain pending? references) = referenceIds references := by
  simp only [siteIds, sitesIn, referenceIds, List.map_map, Function.comp_def]

theorem Cursor.advance_nextId (c : Cursor) : c.advance.nextId = c.nextId := by
  unfold Cursor.advance
  split <;> rfl

/-! ### Expressions -/

/-- The ids of the references between two cursors. -/
def Cursor.HandsOut (c : Cursor) (references : List Reference) (next : Cursor) : Prop :=
  Ascending c.nextId next.nextId (referenceIds references)

theorem Cursor.HandsOut.trans {last : Cursor} {as bs : List Reference} (first : c.HandsOut as next)
    (second : next.HandsOut bs last) : c.HandsOut (as ++ bs) last := by
  unfold Cursor.HandsOut
  rw [referenceIds_append]
  exact first.append second

theorem Cursor.HandsOut.of_advance {as : List Reference} (behind : c.advance.HandsOut as next) :
    c.HandsOut as next := by
  unfold Cursor.HandsOut at behind ⊢
  rwa [c.advance_nextId] at behind

theorem Cursor.HandsOut.then_advance {as : List Reference} (before : c.HandsOut as next) :
    c.HandsOut as next.advance := by
  unfold Cursor.HandsOut at before ⊢
  rwa [next.advance_nextId]

theorem Cursor.handsOut_nil (c : Cursor) : c.HandsOut [] c :=
  .nil (Nat.le_refl _)

theorem Cursor.handsOut_fresh (c : Cursor) (name : String) (assigned : Bool) :
    c.HandsOut [⟨c.nextId, name, assigned⟩] { c with nextId := c.nextId + 1 } :=
  .fresh c.nextId

theorem assigned?_references {target value assignment : Expr}
    (made : target.assigned? value = some assignment) :
    referenceIds assignment.references = referenceIds (target.references ++ value.references) := by
  unfold Expr.assigned? at made
  split at made <;> simp at made <;> subst made <;>
    simp [Expr.references, referenceIds]

structure ExprsOrdered (n : Nat) : Prop where
  exprAt : ∀ level c, (exprAt n level).Gives c fun e next => c.HandsOut e.references next
  operationsOn : ∀ level left (start : Cursor) c, (operationsOn n level left).Gives c fun e next =>
    start.HandsOut left.references c → start.HandsOut e.references next
  suffixesOf : ∀ object (start : Cursor) c, (suffixesOf n object).Gives c fun e next =>
    start.HandsOut object.references c → start.HandsOut e.references next
  items : ∀ closing c, (items n closing).Gives c fun es next => c.HandsOut (Expr.referencesAll es) next
  moreItems : ∀ closing c, (moreItems n closing).Gives c fun es next =>
    c.HandsOut (Expr.referencesAll es) next
  primary : ∀ c, (primary n).Gives c fun e next => c.HandsOut e.references next

theorem items_ordered {closing : Token} (ih : ExprsOrdered n) :
    (items (n + 1) closing).Gives c fun es next => c.HandsOut (Expr.referencesAll es) next := by
  refine accept_bind_gives (fun _ => ?_) fun _ => ?_
  · exact pure_gives c.handsOut_nil.then_advance
  refine (ih.exprAt .assignment c).bind fun first c₁ _ before => ?_
  refine (ih.moreItems closing c₁).bind fun others c₂ _ behind => ?_
  exact pure_gives (before.trans behind)

theorem moreItems_ordered {closing : Token} (ih : ExprsOrdered n) :
    (moreItems (n + 1) closing).Gives c fun es next => c.HandsOut (Expr.referencesAll es) next := by
  refine accept_bind_gives (fun _ => ?_) fun _ => expect_bind_gives fun _ => ?_
  · refine (ih.exprAt .assignment _).bind fun first c₁ _ before => ?_
    refine (ih.moreItems closing c₁).bind fun others c₂ _ behind => ?_
    exact pure_gives (before.trans behind).of_advance
  · exact pure_gives c.handsOut_nil.then_advance

theorem operationsOn_ordered {level : Level} {left : Expr} {start : Cursor} (ih : ExprsOrdered n) :
    (operationsOn (n + 1) level left).Gives c fun e next =>
      start.HandsOut left.references c → start.HandsOut e.references next := by
  refine peek_bind_gives ?_
  split
  · refine take_bind_gives ((ih.exprAt _ _).bind fun right c₁ _ behind => ?_)
    exact (ih.operationsOn _ _ start c₁).imp fun e next _ whole before =>
      whole (before.trans behind.of_advance)
  · exact pure_gives fun before => before

theorem suffixesOf_ordered {object : Expr} {start : Cursor} (ih : ExprsOrdered n) :
    (suffixesOf (n + 1) object).Gives c fun e next =>
      start.HandsOut object.references c → start.HandsOut e.references next := by
  refine peek_bind_gives ?_
  split
  · refine take_bind_gives ((ih.items _ _).bind fun arguments c₁ _ behind => ?_)
    exact (ih.suffixesOf _ start c₁).imp fun e next _ whole before =>
      whole (before.trans behind.of_advance)
  · refine take_bind_gives (identifier_bind_gives fun name _ => ?_)
    exact (ih.suffixesOf _ start _).imp fun e next _ whole before =>
      whole before.then_advance.then_advance
  · refine take_bind_gives ((ih.exprAt _ _).bind fun index c₁ _ behind => expect_bind_gives fun _ => ?_)
    exact (ih.suffixesOf _ start _).imp fun e next _ whole before =>
      whole (before.trans behind.of_advance).then_advance
  · exact pure_gives fun before => before

theorem primary_ordered (ih : ExprsOrdered n) :
    (primary (n + 1)).Gives c fun e next => c.HandsOut e.references next := by
  refine peek_bind_gives ?_
  split
  · exact take_bind_gives (pure_gives c.handsOut_nil.then_advance)
  split
  · exact take_bind_gives (fresh_bind_gives (pure_gives (Cursor.handsOut_fresh _ _ _).of_advance))
  · exact take_bind_gives (fresh_bind_gives (pure_gives (Cursor.handsOut_fresh _ _ _).of_advance))
  · refine take_bind_gives (expect_bind_gives fun _ => identifier_bind_gives fun _ _ => ?_)
    exact fresh_bind_gives (pure_gives (Cursor.handsOut_fresh _ _ _).of_advance.of_advance.of_advance)
  · refine take_bind_gives ((ih.exprAt _ _).bind fun inner c₁ _ behind => expect_bind_gives fun _ => ?_)
    exact pure_gives behind.of_advance.then_advance
  · refine take_bind_gives ((ih.items _ _).bind fun elements c₁ _ behind => ?_)
    exact pure_gives behind.of_advance
  · exact fail_gives

theorem assignment_ordered (ih : ExprsOrdered n) :
    (exprAt (n + 1) .assignment).Gives c fun e next => c.HandsOut e.references next := by
  refine (ih.exprAt .conditional c).bind fun target c₁ _ before => peek_bind_gives ?_
  split
  · refine take_bind_gives ((ih.exprAt .assignment _).bind fun value c₂ _ behind => ?_)
    split
    · next made =>
      refine pure_gives ?_
      unfold Cursor.HandsOut
      rw [assigned?_references made]
      exact before.trans behind.of_advance
    · exact report_bind_gives (pure_gives (before.extend behind.of_advance.le))
  · exact pure_gives before

theorem conditional_ordered (ih : ExprsOrdered n) :
    (exprAt (n + 1) .conditional).Gives c fun e next => c.HandsOut e.references next := by
  refine (ih.exprAt .or c).bind fun test c₁ _ first => accept_bind_gives (fun _ => ?_) fun _ => ?_
  · refine (ih.exprAt .assignment _).bind fun consequent c₂ _ second => expect_bind_gives fun _ => ?_
    refine (ih.exprAt .conditional _).bind fun alternative c₃ _ third => ?_
    exact pure_gives (first.trans (second.of_advance.trans third.of_advance))
  · exact pure_gives first

theorem exprs_ordered (n : Nat) : ExprsOrdered n := by
  induction n with
  | zero =>
    exact ⟨fun _ _ => starve_gives, fun _ _ _ _ => starve_gives, fun _ _ _ => starve_gives,
      fun _ _ => starve_gives, fun _ _ => starve_gives, fun _ => starve_gives⟩
  | succ n ih =>
    refine ⟨fun level c => ?_, fun _ _ _ _ => operationsOn_ordered ih,
      fun _ _ _ => suffixesOf_ordered ih, fun _ _ => items_ordered ih, fun _ _ => moreItems_ordered ih,
      fun _ => primary_ordered ih⟩
    have operations : ∀ level : Level,
        (do let left ← exprAt n level.tighter; operationsOn n level left).Gives c fun e next =>
          c.HandsOut e.references next := by
      intro level
      refine (ih.exprAt level.tighter c).bind fun left c₁ _ before => ?_
      exact (ih.operationsOn level left c c₁).imp fun e next _ whole => whole before
    cases level with
    | assignment => exact assignment_ordered ih
    | conditional => exact conditional_ordered ih
    | unary =>
      refine peek_bind_gives ?_
      split
      · refine take_bind_gives ((ih.exprAt .unary _).bind fun operand c₁ _ behind => ?_)
        exact pure_gives behind.of_advance
      · exact ih.exprAt .suffix c
    | suffix =>
      refine (ih.exprAt .primary c).bind fun object c₁ _ before => ?_
      exact (ih.suffixesOf object c c₁).imp fun e next _ whole => whole before
    | primary => exact ih.primary c
    | _ => exact operations _

/-! ### Statements -/

/-- The ids of the references in a statement between two cursors, whatever is around it. -/
def Cursor.HandsOutIn (c : Cursor) (sites : List Place → List Site) (next : Cursor) : Prop :=
  ∀ chain, Ascending c.nextId next.nextId (siteIds (sites chain))

theorem Cursor.HandsOutIn.of_advance {sites : List Place → List Site}
    (behind : c.advance.HandsOutIn sites next) : c.HandsOutIn sites next := by
  intro chain
  have ascending := behind chain
  rwa [c.advance_nextId] at ascending

theorem Cursor.HandsOutIn.then_advance {sites : List Place → List Site}
    (before : c.HandsOutIn sites next) : c.HandsOutIn sites next.advance := by
  intro chain
  rw [next.advance_nextId]
  exact before chain

theorem optionalExpr_ordered {closing : Token} :
    (optionalExpr n closing).Gives c fun e? next => c.HandsOut (Expr.referencesOpt e?) next := by
  refine accept_bind_gives (fun _ => ?_) fun _ => ?_
  · exact pure_gives c.handsOut_nil.then_advance
  refine ((exprs_ordered n).exprAt .comma c).bind fun value c₁ _ before => expect_bind_gives fun _ => ?_
  refine pure_gives ?_
  rw [Expr.referencesOpt_some]
  exact before.then_advance

theorem parenExpr_ordered : (parenExpr n).Gives c fun e next => c.HandsOut e.references next := by
  refine expect_bind_gives fun _ => ((exprs_ordered n).exprAt .comma _).bind fun value c₁ _ before => ?_
  exact expect_bind_gives fun _ => pure_gives before.of_advance.then_advance

theorem exprStmt_ordered : (exprStmt n).Gives c fun s next => c.HandsOutIn s.sites next := by
  refine ((exprs_ordered n).exprAt .comma c).bind fun value c₁ _ before => expect_bind_gives fun _ => ?_
  refine pure_gives fun chain => ?_
  rw [Stmt.sites, siteIds_sitesIn]
  exact before.then_advance

theorem varDecl_ordered : (varDecl n).Gives c fun s next => c.HandsOutIn s.sites next := by
  refine identifier_bind_gives fun name _ => accept_bind_gives (fun _ => ?_) fun _ => ?_
  · refine ((exprs_ordered n).exprAt .comma _).bind fun value c₁ _ before => expect_bind_gives fun _ => ?_
    refine pure_gives fun chain => ?_
    rw [Stmt.sites, siteIds_sitesIn, Expr.referencesOpt_some]
    exact before.of_advance.of_advance.then_advance
  · refine expect_bind_gives fun _ => pure_gives fun chain => ?_
    rw [Stmt.sites, siteIds_sitesIn]
    exact c.handsOut_nil.then_advance.then_advance

def initialSites : Option Stmt → List Place → List Site
  | none, _ => []
  | some initial, chain => initial.sites chain

theorem forInitial_ordered :
    (forInitial n).Gives c fun s? next => c.HandsOutIn (initialSites s?) next := by
  refine accept_bind_gives (fun _ => ?_) fun _ => accept_bind_gives (fun _ => ?_) fun _ => ?_
  · exact pure_gives fun _ => c.handsOut_nil.then_advance
  · exact varDecl_ordered.bind fun s c₁ _ before => pure_gives before.of_advance
  · exact exprStmt_ordered.bind fun s c₁ _ before => pure_gives before

theorem superclass_ordered :
    superclass.Gives c fun use? next => c.HandsOut (superclassReferences use?) next := by
  refine acceptEither_bind_gives (fun _ => ?_) ?_
  · refine identifier_bind_gives fun name _ => fresh_bind_gives (pure_gives ?_)
    exact (Cursor.handsOut_fresh _ _ _).of_advance.of_advance
  · exact pure_gives c.handsOut_nil

structure StmtsOrdered (n : Nat) : Prop where
  declaration : ∀ c, (declaration n).Gives c fun s? next =>
    ∀ s, s? = some s → c.HandsOutIn s.sites next
  statement : ∀ c, (statement n).Gives c fun s next => c.HandsOutIn s.sites next
  declarations : ∀ c, (declarations n).Gives c fun ss next => c.HandsOutIn (Stmt.sitesAll ss) next
  function : ∀ c, (function n).Gives c fun f next => c.HandsOutIn f.sites next
  methods : ∀ c, (methods n).Gives c fun fs next => c.HandsOutIn (FunctionDecl.sitesAll fs) next

theorem block_ordered (ih : StmtsOrdered n) :
    (braced (declarations n)).Gives c fun ss next => c.HandsOutIn (Stmt.sitesAll ss) next :=
  Gives.braced fun _ => (ih.declarations _).imp fun _ _ _ inner _ => inner.of_advance.then_advance

theorem loop_ordered (ih : StmtsOrdered n) :
    (inLoop (statement n)).Gives c fun s next => c.HandsOutIn s.sites next :=
  Gives.inLoop ((ih.statement _).imp fun _ _ _ inner => inner)

theorem handsOutIn_after_declaration {last : Cursor} {s? : Option Stmt} {others : List Stmt} (moved : c.Onward next)
    (before : ∀ s, s? = some s → c.HandsOutIn s.sites next)
    (behind : next.HandsOutIn (Stmt.sitesAll others) last) :
    c.HandsOutIn (Stmt.sitesAll (s?.toList ++ others)) last := by
  intro chain
  cases s? with
  | none => exact (Ascending.nil moved.nextId).append (behind chain)
  | some s =>
    -- The statements behind are in the scope that the first one leaves.
    show Ascending _ _ (siteIds (s.sites chain ++ Stmt.sitesAll others (s.after chain)))
    rw [siteIds_append]
    exact (before s rfl chain).append (behind _)

theorem declaration_ordered (ih : StmtsOrdered n) :
    (declaration (n + 1)).Gives c fun s? next => ∀ s, s? = some s → c.HandsOutIn s.sites next := by
  refine Gives.kept (peek_bind_gives ?_)
  split
  · refine take_bind_gives (identifier_bind_gives fun name _ => ?_)
    refine superclass_ordered.bind fun use? c₁ _ before => ?_
    refine Gives.bind (Gives.braced fun _ => (ih.methods _).imp fun fs c₂ _ inner _ =>
      show c₁.HandsOutIn (FunctionDecl.sitesAll fs) c₂.advance from inner.of_advance.then_advance) ?_
    intro fs c₂ _ behind
    refine pure_gives fun chain => ?_
    rw [Stmt.sites, siteIds_append, siteIds_sitesIn]
    exact before.of_advance.of_advance.append (behind _)
  · refine take_bind_gives ((ih.function _).bind fun f c₁ _ inner => pure_gives fun chain => ?_)
    exact inner.of_advance _
  · exact take_bind_gives (varDecl_ordered.imp fun s next _ inner => inner.of_advance)
  · exact ih.statement c

theorem takeJump_ordered {depth : Parse Nat} {error : StaticError} (moves : depth.Moves) :
    (takeJump depth error).Gives c fun _ next => c.nextId ≤ next.nextId := by
  intro spot next read
  exact ((takeJump_moves moves _).ok read).nextId

theorem statement_ordered (ih : StmtsOrdered n) :
    (statement (n + 1)).Gives c fun s next => c.HandsOutIn s.sites next := by
  have exprs := exprs_ordered n
  refine peek_bind_gives ?_
  split
  · refine take_bind_gives ((exprs.exprAt _ _).bind fun first c₁ _ before => ?_)
    refine (exprs.moreItems _ _).bind fun others c₂ _ behind => pure_gives fun chain => ?_
    rw [Stmt.sites, siteIds_sitesIn]
    exact (before.trans behind).of_advance
  · refine (block_ordered ih).bind fun body c₁ _ inner => pure_gives fun chain => ?_
    exact inner _
  · refine take_bind_gives (parenExpr_ordered.bind fun test c₁ _ before => ?_)
    refine (ih.statement c₁).bind fun consequent c₂ _ first => accept_bind_gives (fun _ => ?_) fun _ => ?_
    · refine (ih.statement _).bind fun alternative c₃ _ second => pure_gives fun chain => ?_
      rw [Stmt.sites, siteIds_append, siteIds_append, siteIds_sitesIn]
      exact before.of_advance.append ((first chain).append (second.of_advance chain))
    · refine pure_gives fun chain => ?_
      rw [Stmt.sites, siteIds_append, siteIds_sitesIn]
      exact before.of_advance.append (first chain)
  · refine take_bind_gives (parenExpr_ordered.bind fun test c₁ _ before => ?_)
    refine (loop_ordered ih).bind fun body c₂ _ inner => pure_gives fun chain => ?_
    rw [Stmt.sites, siteIds_append, siteIds_sitesIn]
    exact before.of_advance.append (inner chain)
  · refine take_bind_gives (expect_bind_gives fun _ => ?_)
    refine forInitial_ordered.bind fun initial? c₁ _ first => ?_
    refine optionalExpr_ordered.bind fun test? c₂ _ test => ?_
    refine optionalExpr_ordered.bind fun step? c₃ _ step => ?_
    refine (loop_ordered ih).bind fun body c₄ _ inner => pure_gives fun chain => ?_
    have first := first.of_advance.of_advance
    cases initial? with
    | none =>
      rw [Stmt.sites, siteIds_append, siteIds_sitesIn]
      have before := (first chain).append (test.trans step)
      exact before.append (inner _)
    | some initial =>
      rw [Stmt.sites, siteIds_append, siteIds_append, siteIds_sitesIn]
      exact (first _).append (Ascending.append (test.trans step) (inner _))
  · refine (takeJump_ordered moves_loopDepth).bind fun spot c₁ _ le => ?_
    exact expect_bind_gives fun _ => pure_gives fun _ => .nil (c₁.advance_nextId ▸ le)
  · refine (takeJump_ordered moves_loopDepth).bind fun spot c₁ _ le => ?_
    exact expect_bind_gives fun _ => pure_gives fun _ => .nil (c₁.advance_nextId ▸ le)
  · refine (takeJump_ordered moves_functionDepth).bind fun spot c₁ _ le => ?_
    refine optionalExpr_ordered.bind fun value? c₂ _ inner => pure_gives fun chain => ?_
    rw [Stmt.sites, siteIds_sitesIn]
    exact (Ascending.nil le).append inner
  · exact exprStmt_ordered

theorem declarations_ordered (ih : StmtsOrdered n) :
    (declarations (n + 1)).Gives c fun ss next => c.HandsOutIn (Stmt.sitesAll ss) next := by
  refine atBlockEnd_bind_gives (fun _ => ?_) fun _ => ?_
  · exact pure_gives fun _ => c.handsOut_nil
  refine (ih.declaration c).bind fun first? c₁ read before => ?_
  refine (ih.declarations c₁).bind fun others c₂ _ behind => pure_gives ?_
  exact handsOutIn_after_declaration ((stmts_move n).declaration.ok read) before behind

theorem function_ordered (ih : StmtsOrdered n) :
    (function (n + 1)).Gives c fun f next => c.HandsOutIn f.sites next := by
  refine identifier_bind_gives fun name _ => ?_
  refine Gives.bind (P := fun _ next => c.advance.nextId ≤ next.nextId) ?_ fun names c₁ _ le => ?_
  · exact fun _ _ read => ((params_moves n).ok read).nextId
  refine Gives.bind (Gives.inFunction (P := fun body next => c₁.HandsOutIn (Stmt.sitesAll body) next)
    (block_ordered ih)) fun body c₂ _ inner => pure_gives fun chain => ?_
  rw [c.advance_nextId] at le
  exact (Ascending.nil le).append (inner _)

theorem methods_ordered (ih : StmtsOrdered n) :
    (methods (n + 1)).Gives c fun fs next => c.HandsOutIn (FunctionDecl.sitesAll fs) next := by
  refine atBlockEnd_bind_gives (fun _ => ?_) fun _ => ?_
  · exact pure_gives fun _ => c.handsOut_nil
  refine (ih.function c).bind fun first c₁ _ before => ?_
  refine (ih.methods c₁).bind fun others c₂ _ behind => pure_gives fun chain => ?_
  rw [FunctionDecl.sitesAll, siteIds_append]
  exact (before chain).append (behind chain)

theorem stmts_ordered (n : Nat) : StmtsOrdered n := by
  induction n with
  | zero =>
    exact ⟨fun _ => starve_gives, fun _ => starve_gives, fun _ => starve_gives, fun _ => starve_gives,
      fun _ => starve_gives⟩
  | succ n ih =>
    exact ⟨fun _ => declaration_ordered ih, fun _ => statement_ordered ih,
      fun _ => declarations_ordered ih, fun _ => function_ordered ih, fun _ => methods_ordered ih⟩

theorem program_ordered (n : Nat) (c : Cursor) :
    (program n).Gives c fun ss next => c.HandsOutIn (Stmt.sitesAll ss) next := by
  induction n generalizing c with
  | zero => exact starve_gives
  | succ n ih =>
    refine peek_bind_gives ?_
    split
    · exact pure_gives fun _ => c.handsOut_nil
    · refine ((stmts_ordered n).declaration c).bind fun first? c₁ read before => ?_
      refine (ih c₁).bind fun others c₂ _ behind => pure_gives ?_
      exact handsOutIn_after_declaration ((stmts_move n).declaration.ok read) before behind

/-- The references of a program have ids of their own, and no others have them, before or after it. -/
theorem parse_ordered (nextId : Nat) (tokens : List Located) (chain : List Place) :
    Ascending nextId (parse nextId tokens).nextId
      (siteIds (Stmt.sitesAll (parse nextId tokens).program chain)) := by
  unfold parse
  split
  · next statements last read => exact program_ordered _ _ _ _ read chain
  · next error last read => exact .nil ((program_moves _).failed read).nextId
  · exact .nil (Nat.le_refl _)

end Lox
