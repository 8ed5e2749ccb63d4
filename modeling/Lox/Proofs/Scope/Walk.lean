import Lox.Proofs.Scope.Ids

/-!
The walk over a program finds the scopes that its sites say. The scopes of the walk hold the names of
the places around a statement, and each reference is given the distance of the innermost place that
has its name.
-/

namespace Lox

open Resolution

variable {r r₁ r' : Resolution} {chain : List Place}

/-! ### Names -/

/-- No identifier among some tokens is spelled like `this` or `super`. -/
def Lexical (ts : List Token) : Prop :=
  ∀ name, .identifier name ∈ ts → name ≠ thisName ∧ name ≠ superName

@[simp] theorem lexical_nil : Lexical [] :=
  fun _ member => nomatch member

@[simp] theorem lexical_append {ts us : List Token} : Lexical (ts ++ us) ↔ Lexical ts ∧ Lexical us := by
  simp only [Lexical, List.mem_append]
  constructor
  · intro all
    exact ⟨fun name member => all name (Or.inl member), fun name member => all name (Or.inr member)⟩
  · rintro ⟨left, right⟩ name (member | member)
    · exact left name member
    · exact right name member

@[simp] theorem lexical_cons_identifier {name : String} {ts : List Token} :
    Lexical (.identifier name :: ts) ↔ (name ≠ thisName ∧ name ≠ superName) ∧ Lexical ts := by
  constructor
  · intro all
    exact ⟨all name List.mem_cons_self, fun other member => all other (List.mem_cons_of_mem _ member)⟩
  · rintro ⟨apart, rest⟩ other member
    rcases List.mem_cons.mp member with same | member
    · obtain rfl := Token.identifier.inj same
      exact apart
    · exact rest other member

theorem lexical_cons {t : Token} {ts : List Token} (other : ∀ name, t ≠ .identifier name) :
    Lexical (t :: ts) ↔ Lexical ts := by
  constructor
  · exact fun all name member => all name (List.mem_cons_of_mem _ member)
  · intro rest name member
    rcases List.mem_cons.mp member with same | member
    · exact absurd same.symm (other name)
    · exact rest name member

@[simp] theorem lexical_cons_mark {m : Mark} {ts : List Token} : Lexical (.mark m :: ts) ↔ Lexical ts :=
  lexical_cons (by simp)

@[simp] theorem lexical_cons_keyword {k : Keyword} {ts : List Token} :
    Lexical (.keyword k :: ts) ↔ Lexical ts :=
  lexical_cons (by simp)

/-! ### Tables -/

/-- No key of a table has two entries. -/
def Table.Distinct {κ α : Type} (t : Table κ α) : Prop :=
  (t.map Prod.fst).Nodup

theorem Table.mem_put {κ α : Type} [DecidableEq κ] {key other : κ} {value : α} {t : Table κ α}
    (member : other ∈ (t.put key value).map Prod.fst) : other = key ∨ other ∈ t.map Prod.fst := by
  induction t with
  | nil => exact Or.inl (by simpa [Table.put] using member)
  | cons entry rest ih =>
    unfold Table.put at member
    split at member
    · next same =>
      rcases List.mem_cons.mp member with here | behind
      · exact Or.inl (here.trans same)
      · exact Or.inr (List.mem_cons_of_mem _ behind)
    · rcases List.mem_cons.mp member with here | behind
      · exact Or.inr (here ▸ List.mem_cons_self)
      · exact (ih behind).imp_right (List.mem_cons_of_mem _)

theorem Table.Distinct.put {κ α : Type} [DecidableEq κ] {t : Table κ α} (distinct : t.Distinct) (key : κ)
    (value : α) : (Table.put key value t).Distinct := by
  induction t with
  | nil => simp [Table.put, Table.Distinct]
  | cons entry rest ih =>
    obtain ⟨fresh, distinct⟩ := List.nodup_cons.mp distinct
    unfold Table.put
    split
    · next same => exact List.nodup_cons.mpr ⟨same ▸ fresh, distinct⟩
    · next apart =>
      refine List.nodup_cons.mpr ⟨fun member => ?_, ih distinct⟩
      rcases Table.mem_put member with same | member
      · exact apart same
      · exact fresh member

theorem Table.get?_of_not_mem {κ α : Type} [DecidableEq κ] {key : κ} {t : Table κ α}
    (outside : key ∉ t.map Prod.fst) : t.get? key = none := by
  induction t with
  | nil => rfl
  | cons entry rest ih =>
    rw [List.map_cons, List.mem_cons, not_or] at outside
    rw [Table.get?, if_neg fun same => outside.1 same.symm, ih outside.2]

theorem Table.get?_merge {κ α : Type} [DecidableEq κ] {other : Table κ α} (distinct : other.Distinct)
    (t : Table κ α) (key : κ) : (t.merge other).get? key = (other.get? key).or (t.get? key) := by
  unfold Table.merge
  induction other generalizing t with
  | nil => rfl
  | cons entry rest ih =>
    obtain ⟨fresh, distinct⟩ := List.nodup_cons.mp distinct
    rw [List.foldl_cons, ih distinct, Table.get?_put, Table.get?]
    by_cases same : entry.1 = key
    · rw [if_pos same, if_pos same.symm, Table.get?_of_not_mem (same ▸ fresh)]
      rfl
    · rw [if_neg same, if_neg fun h => same h.symm]

/-! ### Expressions -/

/-- What the walk over a phrase without scopes of its own does for the references in it. -/
structure Walked (r r' : Resolution) (references : List Reference) : Prop where
  scopes : r'.scopes = r.scopes
  diagnostics : r.diagnostics <+: r'.diagnostics
  distinct : Table.Distinct r.distances → Table.Distinct r'.distances
  others : ∀ id, id ∉ referenceIds references → r'.distances.get? id = r.distances.get? id
  refers : r'.diagnostics = [] → (referenceIds references).Nodup →
    (∀ id ∈ referenceIds references, r.distances.get? id = none) → ∀ ref ∈ references,
      (ref.assigned = false → ref.name ≠ thisName → ref.name ≠ superName →
        r.scopes.head?.bind (·.get? ref.name) ≠ some false) ∧
      r'.distances.get? ref.id = r.scopes.findIdx? (·.has ref.name)

theorem mem_referenceIds {ref : Reference} {references : List Reference} (member : ref ∈ references) :
    ref.id ∈ referenceIds references :=
  List.mem_map_of_mem member

namespace Walked

variable {as bs : List Reference}

theorem refl (r : Resolution) : Walked r r [] :=
  ⟨rfl, List.prefix_refl _, id, fun _ _ => rfl, fun _ _ _ _ member => nomatch member⟩

theorem clean (walked : Walked r r' as) (clean : r'.diagnostics = []) : r.diagnostics = [] :=
  List.prefix_nil.mp (clean ▸ walked.diagnostics)

theorem append (first : Walked r r₁ as) (second : Walked r₁ r' bs) : Walked r r' (as ++ bs) := by
  refine ⟨second.scopes.trans first.scopes, first.diagnostics.trans second.diagnostics,
    second.distinct ∘ first.distinct, ?_, ?_⟩
  · intro id outside
    rw [referenceIds_append, List.mem_append, not_or] at outside
    rw [second.others id outside.2, first.others id outside.1]
  · intro clean distinct unused ref member
    rw [referenceIds_append] at distinct unused
    obtain ⟨distinct₁, distinct₂, apart⟩ := List.nodup_append.mp distinct
    rcases List.mem_append.mp member with member | member
    · have before := first.refers (second.clean clean) distinct₁
        (fun id inside => unused id (List.mem_append_left _ inside)) ref member
      refine ⟨before.1, (second.others _ ?_).trans before.2⟩
      exact fun behind => apart _ (mem_referenceIds member) _ behind rfl
    · rw [← first.scopes]
      refine second.refers clean distinct₂ (fun id inside => ?_) ref member
      rw [first.others id fun before => apart _ before _ inside rfl]
      exact unused id (List.mem_append_right _ inside)

theorem perm (walked : Walked r r' as) (same : as.Perm bs) : Walked r r' bs := by
  have ids : (referenceIds as).Perm (referenceIds bs) := same.map _
  refine ⟨walked.scopes, walked.diagnostics, walked.distinct, fun id outside => ?_,
    fun clean distinct unused ref member => ?_⟩
  · exact walked.others id fun inside => outside (ids.mem_iff.mp inside)
  · exact walked.refers clean (ids.nodup_iff.mpr distinct)
      (fun id inside => unused id (ids.mem_iff.mp inside)) ref (same.mem_iff.mpr member)

/-- A phrase with an error in it refers to nothing for certain. -/
theorem of_report {line : Nat} {error : StaticError} (walked : Walked (r.report line error) r' as) :
    Walked r r' as := by
  refine ⟨walked.scopes, (List.prefix_append _ _).trans walked.diagnostics, walked.distinct, walked.others, ?_⟩
  intro clean
  have reported := walked.clean clean
  simp [Resolution.report] at reported

end Walked

theorem walked_report (line : Nat) (error : StaticError) (ref : Reference) :
    Walked r (r.report line error) [ref] := by
  refine ⟨rfl, List.prefix_append _ _, id, fun _ _ => rfl, fun clean => ?_⟩
  simp [Resolution.report] at clean

theorem walked_refer (ref : Reference)
    (known : ref.assigned = false → ref.name ≠ thisName → ref.name ≠ superName →
      r.scopes.head?.bind (·.get? ref.name) ≠ some false) :
    Walked r (r.refer ref.id ref.name) [ref] := by
  unfold Resolution.refer
  split
  · next distance found =>
    refine ⟨rfl, List.prefix_refl _, fun distinct => distinct.put _ _, fun id outside => ?_,
      fun _ _ _ other member => ?_⟩
    · exact Table.get?_put_of_ne (fun same => outside (by simp [referenceIds, same])) _ _
    · rw [List.mem_singleton.mp member]
      exact ⟨known, (Table.get?_put_self _ _ _).trans found.symm⟩
  · next missing =>
    refine ⟨rfl, List.prefix_refl _, id, fun _ _ => rfl, fun _ _ unused other member => ?_⟩
    rw [List.mem_singleton.mp member]
    exact ⟨known, (unused _ (by simp [referenceIds])).trans missing.symm⟩

theorem walked_read (use : Use) : Walked r (r.read use) [⟨use.id, use.name, false⟩] := by
  unfold Resolution.read
  split
  · have walked := walked_refer (r := r.report use.line (.ownInitializer use.name))
      ⟨use.id, use.name, true⟩ (by simp)
    refine ⟨walked.scopes, (List.prefix_append _ _).trans walked.diagnostics, walked.distinct, walked.others,
      fun clean => ?_⟩
    have reported := walked.clean clean
    simp [Resolution.report] at reported
  · next known => exact walked_refer ⟨use.id, use.name, false⟩ fun _ _ _ => known

mutual

theorem Expr.walked : ∀ (e : Expr) (r : Resolution), Walked r (e.resolve r) e.references
  | .literal _, r => .refl r
  | .group inner, r => inner.walked r
  | .unary _ operand _, r => operand.walked r
  | .binary _ left right _, r => (left.walked r).append (right.walked _)
  | .conditional test consequent alternative, r =>
    (test.walked r).append ((consequent.walked _).append (alternative.walked _))
  | .var use, r => walked_read use
  | .assign target value, r =>
    ((value.walked r).append (walked_refer ⟨target.id, target.name, true⟩ fun h => nomatch h)).perm
      List.perm_append_comm
  | .thisRef id line, r => by
    unfold Expr.resolve
    split
    · exact walked_report _ _ _
    · exact walked_refer ⟨id, thisName, false⟩ fun _ other => absurd rfl other
  | .superRef id _ line, r => by
    unfold Expr.resolve
    split
    · exact walked_refer ⟨id, superName, false⟩ fun _ _ other => absurd rfl other
    · exact walked_report _ _ _
  | .call callee arguments _, r => (callee.walked r).append (Expr.walkedAll arguments _)
  | .field object _ _, r => object.walked r
  | .setField object _ value _, r => ((value.walked r).append (object.walked _)).perm List.perm_append_comm
  | .array elements, r => Expr.walkedAll elements r
  | .element sequence index _, r => (sequence.walked r).append (index.walked _)
  | .setElement sequence index value _, r => by
    have walked := (value.walked r).append ((sequence.walked _).append (index.walked _))
    refine walked.perm (List.perm_append_comm.trans ?_)
    rw [List.append_assoc]
    exact .refl _

theorem Expr.walkedAll : ∀ (es : List Expr) (r : Resolution),
    Walked r (Expr.resolveAll es r) (Expr.referencesAll es)
  | [], r => .refl r
  | e :: es, r => (e.walked r).append (Expr.walkedAll es _)

end

theorem Expr.walkedOpt (e? : Option Expr) (r : Resolution) :
    Walked r (Expr.resolveOpt e? r) (Expr.referencesOpt e?) :=
  Expr.walkedAll _ r

/-! ### Scopes -/

/-- The scopes of a walk have the names of some places. The name of a local variable is not known in the
innermost one while its initial value is looked at. -/
def Knows (pending? : Option String) : List Scope → List Place → Prop
  | [], [] => True
  | scope :: scopes, p :: chain =>
    (∀ name, scope.get? name =
      if pending? = some name then some false else if name ∈ p.names then some true else none) ∧
    Knows none scopes chain
  | _, _ => False

theorem knows_findIdx {pending? : Option String} {scopes : List Scope} {chain : List Place} {name : String}
    (knows : Knows pending? scopes chain) (other : pending? ≠ some name) :
    scopes.findIdx? (·.has name) = chain.findIdx? (·.has name) := by
  induction chain generalizing pending? scopes with
  | nil =>
    cases scopes with
    | nil => rfl
    | cons _ _ => exact knows.elim
  | cons p chain ih =>
    cases scopes with
    | nil => exact knows.elim
    | cons scope scopes =>
      have same : scope.has name = p.has name := by
        rw [Table.has, knows.1 name, if_neg other, Place.has]
        split <;> simp [*]
      rw [List.findIdx?_cons, List.findIdx?_cons, same, ih knows.2 (by simp)]

theorem knows_pending {name : String} (knows : Knows none r.scopes chain) :
    Knows (pendingName name chain) (r.setName name false).scopes chain := by
  unfold Resolution.setName
  match found : r.scopes, chain with
  | [], [] => simp [found, Knows]
  | [], _ :: _ | _ :: _, [] => simp [found, Knows] at knows
  | scope :: scopes, p :: chain =>
    rw [found] at knows
    refine ⟨fun other => ?_, knows.2⟩
    rw [Table.get?_put, knows.1 other]
    by_cases same : other = name
    · simp [same, pendingName]
    · have apart : name ≠ other := fun h => same h.symm
      simp [same, apart, pendingName]

theorem knows_define {name : String} {pending? : Option String} (knows : Knows pending? r.scopes chain)
    (own : pending? = none ∨ pending? = pendingName name chain) :
    Knows none (r.define name).scopes (declareName name chain) := by
  unfold Resolution.define Resolution.setName
  match found : r.scopes, chain with
  | [], [] => simp [found, declareName, Knows]
  | [], _ :: _ | _ :: _, [] => simp [found, Knows] at knows
  | scope :: scopes, p :: chain =>
    rw [found] at knows
    refine ⟨fun other => ?_, knows.2⟩
    rw [Table.get?_put, knows.1 other]
    by_cases same : other = name
    · simp [same]
    · have apart : pending? ≠ some other := by
        rcases own with rfl | rfl
        · simp
        · simpa [pendingName] using fun h => same h.symm
      simp [same, apart]

theorem knows_open {r : Resolution} (scope : ScopeSite) (knows : Knows none r.scopes chain) :
    Knows none r.openScope.scopes (⟨scope, []⟩ :: chain) :=
  ⟨fun name => by simp, knows⟩

theorem knows_close {p : Place} (knows : Knows none r.scopes (p :: chain)) :
    Knows none r.closeScope.scopes chain := by
  unfold Resolution.closeScope
  match found : r.scopes with
  | [] => simp [found, Knows] at knows
  | _ :: _ => simpa [found, Knows] using (found ▸ knows).2

/-! ### What the walk reports stays reported -/

theorem declare_keeps (r : Resolution) (name : String) (line : Nat) :
    r.diagnostics <+: (r.declare name line).diagnostics := by
  have kept : (r.setName name false).diagnostics = r.diagnostics := by
    unfold Resolution.setName
    split <;> rfl
  unfold Resolution.declare
  simp only
  split
  · rw [Resolution.report, kept]
    exact List.prefix_append _ _
  · simp [kept]

theorem define_diagnostics (r : Resolution) (name : String) : (r.define name).diagnostics = r.diagnostics := by
  unfold Resolution.define Resolution.setName
  split <;> rfl

theorem declareName_keeps (r : Resolution) (name : String) (line : Nat) :
    r.diagnostics <+: ((r.declare name line).define name).diagnostics := by
  rw [define_diagnostics]
  exact declare_keeps r name line

/-! ### Statements -/

/-- Some distances send a reference where it belongs, and an assignment in the initializer of its own variable to
that. -/
structure Site.Sent (distances : Distances) (site : Site) : Prop where
  own : site.pending? = some site.reference.name →
    site.reference.assigned = true ∧ distances.get? site.reference.id = some 0
  other : site.pending? ≠ some site.reference.name → distances.get? site.reference.id = site.distance?

theorem Site.Sent.agrees {site : Site} {d : Distances} (sent : site.Sent d) : site.Agrees d :=
  ⟨fun pending => (sent.own pending).1, sent.other⟩

/-- The walk from one state to another one gives each of some references its distance, and changes no
other. -/
structure Finds (r r' : Resolution) (sites : List Site) : Prop where
  others : ∀ id, id ∉ siteIds sites → r'.distances.get? id = r.distances.get? id
  sent : (siteIds sites).Nodup → (∀ id ∈ siteIds sites, r.distances.get? id = none) →
    ∀ site ∈ sites, site.Sent r'.distances

theorem mem_siteIds {site : Site} {sites : List Site} (member : site ∈ sites) :
    site.reference.id ∈ siteIds sites :=
  List.mem_map_of_mem member

theorem Site.Agrees.congr {site : Site} {d d' : Distances} (agrees : site.Agrees d)
    (same : d'.get? site.reference.id = d.get? site.reference.id) : site.Agrees d' :=
  ⟨agrees.1, fun apart => same.trans (agrees.2 apart)⟩

theorem Site.Sent.congr {site : Site} {d d' : Distances} (sent : site.Sent d)
    (same : d'.get? site.reference.id = d.get? site.reference.id) : site.Sent d' :=
  ⟨fun pending => (sent.own pending).imp_right same.trans, fun apart => same.trans (sent.other apart)⟩

namespace Finds

variable {as bs : List Site}

theorem nil (same : r'.distances = r.distances) : Finds r r' [] :=
  ⟨fun _ _ => by rw [same], fun _ _ _ member => nomatch member⟩

theorem append (first : Finds r r₁ as) (second : Finds r₁ r' bs) : Finds r r' (as ++ bs) := by
  refine ⟨fun id outside => ?_, fun distinct unused site member => ?_⟩
  · rw [siteIds_append, List.mem_append, not_or] at outside
    rw [second.others id outside.2, first.others id outside.1]
  rw [siteIds_append] at distinct unused
  obtain ⟨distinct₁, distinct₂, apart⟩ := List.nodup_append.mp distinct
  rcases List.mem_append.mp member with member | member
  · have before := first.sent distinct₁ (fun id inside => unused id (List.mem_append_left _ inside)) site member
    exact before.congr (second.others _ fun behind => apart _ (mem_siteIds member) _ behind rfl)
  · refine second.sent distinct₂ (fun id inside => ?_) site member
    rw [first.others id fun before => apart _ before _ inside rfl]
    exact unused id (List.mem_append_right _ inside)

theorem congr {r₂ : Resolution} (finds : Finds r r₁ as) (left : r'.distances = r.distances)
    (right : r₂.distances = r₁.distances) : Finds r' r₂ as := by
  refine ⟨fun id outside => ?_, fun distinct unused site member => ?_⟩
  · rw [right, left]
    exact finds.others id outside
  · rw [right]
    exact finds.sent distinct (fun id inside => left ▸ unused id inside) site member

end Finds

theorem Walked.finds {references : List Reference} {pending? : Option String}
    (walked : Walked r r' references) (clean : r'.diagnostics = []) (knows : Knows pending? r.scopes chain)
    (lexical : ∀ name, pending? = some name → chain ≠ [] ∧ name ≠ thisName ∧ name ≠ superName) :
    Finds r r' (sitesIn chain pending? references) := by
  refine ⟨?_, ?_⟩
  · rw [siteIds_sitesIn]
    exact walked.others
  rw [siteIds_sitesIn]
  intro distinct unused site member
  obtain ⟨ref, inside, rfl⟩ := List.mem_map.mp member
  obtain ⟨known, distance⟩ := walked.refers clean distinct unused ref inside
  refine ⟨fun pending => ?_, fun apart => ?_⟩
  · obtain ⟨local_, notThis, notSuper⟩ := lexical _ pending
    have here : pending? = some ref.name := pending
    -- The innermost scope has the name already, not known yet.
    have unknown : r.scopes.head?.bind (·.get? ref.name) = some false := by
      match found : r.scopes, chain with
      | _, [] => exact absurd rfl local_
      | [], _ :: _ => simp [found, Knows] at knows
      | scope :: _, _ :: _ =>
        rw [found] at knows
        simp [knows.1, here]
    refine ⟨(Bool.eq_false_or_eq_true _).resolve_right fun read => known read notThis notSuper unknown, ?_⟩
    refine distance.trans ?_
    match r.scopes, unknown with
    | scope :: _, unknown =>
      have has : scope.has ref.name = true := Option.isSome_iff_exists.mpr ⟨false, unknown⟩
      rw [List.findIdx?_cons, if_pos has]
  · exact distance.trans (knows_findIdx knows apart)

/-- What the walk does from a place with some scopes around it to one behind it. -/
structure Resolves (r r' : Resolution) (chain after : List Place) (sites : List Site) : Prop where
  kept : r.diagnostics <+: r'.diagnostics
  distinct : Table.Distinct r.distances → Table.Distinct r'.distances
  knows : r'.diagnostics = [] → Knows none r.scopes chain → Knows none r'.scopes after
  finds : r'.diagnostics = [] → Knows none r.scopes chain → Finds r r' sites

namespace Resolves

variable {as bs : List Site} {mid after : List Place}

theorem refl (r : Resolution) (chain : List Place) : Resolves r r chain chain [] :=
  ⟨List.prefix_refl _, id, fun _ knows => knows, fun _ _ => .nil rfl⟩

theorem append (first : Resolves r r₁ chain mid as) (second : Resolves r₁ r' mid after bs) :
    Resolves r r' chain after (as ++ bs) := by
  have between (clean : r'.diagnostics = []) : r₁.diagnostics = [] :=
    List.prefix_nil.mp (clean ▸ second.kept)
  refine ⟨first.kept.trans second.kept, second.distinct ∘ first.distinct, fun clean knows => ?_,
    fun clean knows => ?_⟩
  · exact second.knows clean (first.knows (between clean) knows)
  · exact (first.finds (between clean) knows).append
      (second.finds clean (first.knows (between clean) knows))

theorem congr {r₂ r₃ : Resolution} (resolves : Resolves r r' chain after as)
    (left : r₂.scopes = r.scopes ∧ r₂.distances = r.distances ∧ r₂.diagnostics = r.diagnostics)
    (right : r₃.scopes = r'.scopes ∧ r₃.distances = r'.distances ∧ r₃.diagnostics = r'.diagnostics) :
    Resolves r₂ r₃ chain after as := by
  obtain ⟨scopes, distances, diagnostics⟩ := left
  obtain ⟨scopes', distances', diagnostics'⟩ := right
  refine ⟨?_, ?_, ?_, ?_⟩
  · rw [diagnostics, diagnostics']
    exact resolves.kept
  · rw [distances, distances']
    exact resolves.distinct
  · rw [diagnostics', scopes, scopes']
    exact resolves.knows
  · intro clean knows
    exact (resolves.finds (diagnostics' ▸ clean) (scopes ▸ knows)).congr distances distances'

/-- The innermost scope is left behind. -/
theorem close {p : Place} (resolves : Resolves r r' chain (p :: after) as) :
    Resolves r r'.closeScope chain after as :=
  ⟨resolves.kept, resolves.distinct, fun clean knows => knows_close (resolves.knows clean knows),
    fun clean knows => (resolves.finds clean knows).congr rfl rfl⟩

end Resolves

theorem Walked.resolves {references : List Reference} (walked : Walked r r' references) (chain : List Place) :
    Resolves r r' chain chain (sitesIn chain none references) := by
  refine ⟨walked.diagnostics, walked.distinct, fun _ knows => ?_, fun clean knows => ?_⟩
  · rw [walked.scopes]
    exact knows
  · exact walked.finds clean knows (by simp)

/-! ### Declarations -/

theorem setName_distances (r : Resolution) (name : String) (known : Bool) :
    (r.setName name known).distances = r.distances := by
  unfold Resolution.setName
  split <;> rfl

theorem declare_distances (r : Resolution) (name : String) (line : Nat) :
    (r.declare name line).distances = r.distances := by
  rw [← setName_distances r name false]
  unfold Resolution.declare
  simp only
  split <;> rfl

theorem declare_clean {name : String} {line : Nat} (clean : (r.declare name line).diagnostics = []) :
    r.declare name line = r.setName name false := by
  unfold Resolution.declare at clean ⊢
  simp only at clean ⊢
  split
  · next twice => simp [twice, Resolution.report] at clean
  · rfl

theorem resolves_declared (r : Resolution) (name : String) (line : Nat) (chain : List Place) :
    Resolves r ((r.declare name line).define name) chain (declareName name chain) [] := by
  have same : ((r.declare name line).define name).distances = r.distances :=
    (setName_distances _ _ _).trans (declare_distances _ _ _)
  refine ⟨declareName_keeps r name line, fun distinct => same ▸ distinct, fun clean knows => ?_,
    fun _ _ => .nil same⟩
  rw [define_diagnostics] at clean
  rw [declare_clean clean]
  exact knows_define (knows_pending knows) (Or.inr rfl)

theorem resolves_open (r : Resolution) (scope : ScopeSite) (chain : List Place) :
    Resolves r r.openScope chain (⟨scope, []⟩ :: chain) [] :=
  ⟨List.prefix_refl _, id, fun _ knows => knows_open scope knows, fun _ _ => .nil rfl⟩

/-- A scope that binds nothing but a name. -/
theorem resolves_binding (r : Resolution) (scope : ScopeSite) (name : String) (chain : List Place) :
    Resolves r (r.openScope.define name) chain (⟨scope, [name]⟩ :: chain) [] := by
  have same : (r.openScope.define name).distances = r.distances := setName_distances _ _ _
  refine ⟨?_, fun distinct => same ▸ distinct, fun _ knows => ?_, fun _ _ => .nil same⟩
  · rw [define_diagnostics]
    exact List.prefix_refl _
  · exact knows_define (knows_open scope knows) (Or.inl rfl)

theorem resolves_params (params : List String) (line : Nat) (r : Resolution) (chain : List Place)
    (scope : ScopeSite)
    (names all : List String) (same : ∀ name, name ∈ all ↔ name ∈ params ∨ name ∈ names) :
    Resolves r (declareParams params line r) (⟨scope, names⟩ :: chain) (⟨scope, all⟩ :: chain) [] := by
  induction params generalizing r names with
  | nil =>
    refine ⟨List.prefix_refl _, id, fun _ knows => ?_, fun _ _ => .nil rfl⟩
    change Knows none r.scopes _
    match found : r.scopes with
    | [] => simp [found, Knows] at knows
    | _ :: _ => simpa [found, Knows, same] using knows
  | cons first params ih =>
    refine (resolves_declared r first line _).append (ih _ (first :: names) fun name => ?_)
    rw [same, List.mem_cons, List.mem_cons, or_left_comm, or_assoc]

theorem walked_return (value? : Option Expr) (line : Nat) (r : Resolution) :
    Walked r (resolveReturn value? line r) (Expr.referencesOpt value?) := by
  cases value? with
  | none => exact .refl r
  | some value =>
    rw [Expr.referencesOpt_some]
    unfold resolveReturn
    simp only
    split
    · exact (value.walked _).of_report
    · exact value.walked r

/-! ### Statements -/

theorem Stmt.after_plain {s : Stmt} (plain : s.Plain) (chain : List Place) : s.after chain = chain := by
  cases s with
  | varDecl _ _ _ | funDecl _ | classDecl _ _ _ _ => exact plain.elim
  | _ => rfl

theorem declareName_cons (name : String) (p : Place) (chain : List Place) :
    ∃ names, declareName name (p :: chain) = ⟨p.scope, names⟩ :: chain :=
  ⟨name :: p.names, rfl⟩

theorem Stmt.after_cons (s : Stmt) (p : Place) (chain : List Place) :
    ∃ names, s.after (p :: chain) = ⟨p.scope, names⟩ :: chain := by
  cases s with
  | varDecl _ _ _ | funDecl _ | classDecl _ _ _ _ => exact declareName_cons _ p chain
  | _ => exact ⟨p.names, rfl⟩

theorem resolves_varDecl (name : String) (initial? : Option Expr) (line : Nat) (r : Resolution)
    (chain : List Place) (proper : name ≠ thisName ∧ name ≠ superName) :
    Resolves r ((Expr.resolveOpt initial? (r.declare name line)).define name) chain (declareName name chain)
      (sitesIn chain (pendingName name chain) (Expr.referencesOpt initial?)) := by
  have walked := Expr.walkedOpt initial? (r.declare name line)
  have pending (clean : (Expr.resolveOpt initial? (r.declare name line)).diagnostics = [])
      (knows : Knows none r.scopes chain) : Knows (pendingName name chain) (r.declare name line).scopes chain := by
    rw [declare_clean (walked.clean clean)]
    exact knows_pending knows
  have same : ((Expr.resolveOpt initial? (r.declare name line)).define name).distances =
      (Expr.resolveOpt initial? (r.declare name line)).distances := setName_distances _ _ _
  refine ⟨?_, fun distinct => ?_, ?_, ?_⟩
  · rw [define_diagnostics]
    exact (declare_keeps r name line).trans walked.diagnostics
  · rw [same]
    exact walked.distinct (declare_distances r name line ▸ distinct)
  · intro clean knows
    rw [define_diagnostics] at clean
    have inside := pending clean knows
    rw [← walked.scopes] at inside
    exact knows_define inside (Or.inr rfl)
  · intro clean knows
    rw [define_diagnostics] at clean
    refine (walked.finds clean (pending clean knows) fun other own => ?_).congr
      (declare_distances r name line).symm same
    cases chain with
    | nil => cases own
    | cons p chain =>
      obtain rfl := Option.some.inj own
      exact ⟨List.cons_ne_nil p chain, proper⟩

/-! ### Classes -/

/-- The superclass of a class is not the class itself, so that it is found past its name. -/
theorem findIdx_declareName {name other : String} (apart : other ≠ name) (chain : List Place) :
    (declareName name chain).findIdx? (·.has other) = chain.findIdx? (·.has other) := by
  cases chain with
  | nil => rfl
  | cons p chain =>
    have same : Place.has { p with names := name :: p.names } other = p.has other := by
      simp [Place.has, apart]
    rw [declareName, List.findIdx?_cons, List.findIdx?_cons, same]

theorem Finds.past_name {name : String} {use : Use} (apart : use.name ≠ name)
    (finds : Finds r r' (sitesIn (declareName name chain) none [⟨use.id, use.name, false⟩])) :
    Finds r r' (sitesIn chain none [⟨use.id, use.name, false⟩]) := by
  refine ⟨finds.others, fun distinct unused site member => ?_⟩
  rw [List.mem_singleton.mp member]
  have sent := finds.sent distinct unused _ List.mem_cons_self
  refine ⟨by simp, fun _ => (sent.other (by simp)).trans ?_⟩
  exact findIdx_declareName apart chain

theorem resolves_superclass (r : Resolution) (name : String) (use : Use) (line : Nat) (scope : ScopeSite)
    (chain : List Place) :
    let named := ({ r with classKind := .base }.declare name line).define name
    let apart := if use.name = name then named.report use.line .inheritFromSelf else named
    Resolves r ((({ apart with classKind := .derived }.read use).openScope).define superName) chain
      (⟨scope, [superName]⟩ :: declareName name chain) (sitesIn chain none [⟨use.id, use.name, false⟩]) := by
  intro named apart
  have before : Resolves r named chain (declareName name chain) [] :=
    (resolves_declared { r with classKind := .base } name line chain).congr ⟨rfl, rfl, rfl⟩ ⟨rfl, rfl, rfl⟩
  have read : Resolves apart ({ apart with classKind := .derived }.read use) (declareName name chain)
      (declareName name chain) (sitesIn (declareName name chain) none [⟨use.id, use.name, false⟩]) :=
    ((walked_read (r := { apart with classKind := .derived }) use).resolves _).congr ⟨rfl, rfl, rfl⟩
      ⟨rfl, rfl, rfl⟩
  have kept : named.diagnostics <+: apart.diagnostics := by
    change named.diagnostics <+: (if use.name = name then _ else named).diagnostics
    split
    · exact List.prefix_append _ _
    · exact List.prefix_refl _
  have other (clean : ({ apart with classKind := .derived }.read use).diagnostics = []) :
      use.name ≠ name ∧ apart = named ∧ named.diagnostics = [] := by
    have clean : apart.diagnostics = [] := List.prefix_nil.mp (clean ▸ read.kept)
    by_cases same : use.name = name
    · simp [apart, same, Resolution.report] at clean
    · exact ⟨same, if_neg same, List.prefix_nil.mp (clean ▸ kept)⟩
  have unmoved : r.distances = apart.distances := by
    have same : named.distances = r.distances :=
      (setName_distances _ _ _).trans (declare_distances { r with classKind := .base } name line)
    change _ = (if use.name = name then named.report use.line .inheritFromSelf else named).distances
    split <;> exact same.symm
  have both : Resolves r ({ apart with classKind := .derived }.read use) chain (declareName name chain)
      (sitesIn chain none [⟨use.id, use.name, false⟩]) := by
    refine ⟨(before.kept.trans kept).trans read.kept, fun distinct => read.distinct (unmoved ▸ distinct),
      fun clean knows => ?_, fun clean knows => ?_⟩
    · obtain ⟨-, same, clean'⟩ := other clean
      exact read.knows clean (same ▸ before.knows clean' knows)
    · obtain ⟨different, same, clean'⟩ := other clean
      have found := read.finds clean (same ▸ before.knows clean' knows)
      exact (found.past_name different).congr unmoved rfl
  have bound := both.append (resolves_binding _ scope superName (declareName name chain))
  rwa [List.append_nil] at bound

theorem resolves_enterClass (decl : Stmt) (name : String) (superclass? : Option Use) (line : Nat)
    (r : Resolution) (chain : List Place) :
    Resolves r (enterClass name superclass? line r) chain (boundChain decl name superclass? chain)
      (sitesIn chain none (superclassReferences superclass?)) := by
  have receiver (r : Resolution) (chain : List Place) := resolves_binding r (.receiver decl) thisName chain
  cases superclass? with
  | none =>
    refine ((resolves_declared { r with classKind := .base } name line chain).append (receiver _ _)).congr
      ⟨rfl, rfl, rfl⟩ ⟨rfl, rfl, rfl⟩
  | some use =>
    have resolves := (resolves_superclass r name use line (.superclass decl) chain).append (receiver _ _)
    rwa [List.append_nil] at resolves

theorem Resolves.leaveClass {decl : Stmt} {name : String} {superclass? : Option Use} {sites : List Site}
    {outside : List Place} (outer : ClassKind)
    (resolves : Resolves r r' outside (boundChain decl name superclass? chain) sites) :
    Resolves r (leaveClass superclass? outer r') outside (declareName name chain) sites := by
  cases superclass? with
  | none => exact resolves.close.congr ⟨rfl, rfl, rfl⟩ ⟨rfl, rfl, rfl⟩
  | some _ => exact resolves.close.close.congr ⟨rfl, rfl, rfl⟩ ⟨rfl, rfl, rfl⟩

/-! ### The walk over statements -/

/-- The scopes behind some statements. -/
def Stmt.afterAll (chain : List Place) : List Stmt → List Place
  | [] => chain
  | s :: ss => Stmt.afterAll (s.after chain) ss

theorem Stmt.afterAll_cons (ss : List Stmt) (p : Place) (chain : List Place) :
    ∃ names, Stmt.afterAll (p :: chain) ss = ⟨p.scope, names⟩ :: chain := by
  induction ss generalizing p with
  | nil => exact ⟨p.names, rfl⟩
  | cons s ss ih =>
    obtain ⟨names, first⟩ := s.after_cons p chain
    rw [Stmt.afterAll, first]
    exact ih ⟨p.scope, names⟩

mutual

theorem Stmt.resolves : ∀ (s : Stmt) (r : Resolution) (chain : List Place), s.Stratified → Lexical s.tokens →
    Resolves r (s.resolve r) chain (s.after chain) (s.sites chain)
  | .expr value, r, chain, _, _ => (value.walked r).resolves chain
  | .print items _, r, chain, _, _ => (Expr.walkedAll items r).resolves chain
  | .varDecl name initial? line, r, chain, _, lexical => by
    refine resolves_varDecl name initial? line r chain ?_
    cases initial? with
    | none => simpa [Stmt.tokens] using lexical
    | some initial =>
      simp [Stmt.tokens] at lexical
      exact lexical.1
  | .block body, r, chain, strata, lexical => by
    simp [Stmt.tokens] at lexical
    have inside := Stmt.resolvesAll body r.openScope (⟨.stmt (.block body), []⟩ :: chain) strata lexical
    obtain ⟨names, last⟩ := Stmt.afterAll_cons body ⟨.stmt (.block body), []⟩ chain
    rw [last] at inside
    exact ((resolves_open r _ chain).append inside).close
  | .ifElse test consequent none, r, chain, ⟨_, plain, strata⟩, lexical => by
    simp [Stmt.tokens] at lexical
    have branch := consequent.resolves (test.resolve r) chain strata lexical.2
    rw [Stmt.after_plain plain] at branch
    exact ((test.walked r).resolves chain).append branch
  | .ifElse test consequent (some alternative), r, chain, ⟨_, ⟨plain, strata, _⟩, plain', strata'⟩, lexical => by
    simp [Stmt.tokens] at lexical
    have first := consequent.resolves (test.resolve r) chain strata lexical.2.1
    have second := alternative.resolves (consequent.resolve (test.resolve r)) chain strata' lexical.2.2
    rw [Stmt.after_plain plain] at first
    rw [Stmt.after_plain plain'] at second
    exact ((test.walked r).resolves chain).append (first.append second)
  | .whileLoop test body, r, chain, ⟨_, plain, strata⟩, lexical => by
    simp [Stmt.tokens] at lexical
    have round := body.resolves (test.resolve r) chain strata lexical.2
    rw [Stmt.after_plain plain] at round
    exact ((test.walked r).resolves chain).append round
  | .forLoop none test? step? body, r, chain, ⟨_, _, plain, strata⟩, lexical => by
    simp [Stmt.tokens] at lexical
    have conditions := ((Expr.walkedOpt test? r.openScope).append (Expr.walkedOpt step? _)).resolves
      (⟨.stmt (.forLoop none test? step? body), []⟩ :: chain)
    have round := body.resolves (Expr.resolveOpt step? (Expr.resolveOpt test? r.openScope))
      (⟨.stmt (.forLoop none test? step? body), []⟩ :: chain) strata lexical.2.2
    rw [Stmt.after_plain plain] at round
    exact ((resolves_open r _ chain).append (conditions.append round)).close
  | .forLoop (some initial) test? step? body, r, chain, ⟨⟨_, strata⟩, _, _, plain, strata'⟩, lexical => by
    simp [Stmt.tokens] at lexical
    have first := initial.resolves r.openScope
      (⟨.stmt (.forLoop (some initial) test? step? body), []⟩ :: chain) strata lexical.1
    obtain ⟨names, inner⟩ := initial.after_cons ⟨.stmt (.forLoop (some initial) test? step? body), []⟩ chain
    have conditions := ((Expr.walkedOpt test? (initial.resolve r.openScope)).append
      (Expr.walkedOpt step? _)).resolves (⟨.stmt (.forLoop (some initial) test? step? body), names⟩ :: chain)
    have round := body.resolves (Expr.resolveOpt step? (Expr.resolveOpt test? (initial.resolve r.openScope)))
      (⟨.stmt (.forLoop (some initial) test? step? body), names⟩ :: chain) strata' lexical.2.2.2
    rw [Stmt.after_plain plain] at round
    -- The first clause adds to the scope of the loop, which all that follows is in.
    rw [inner] at first
    have all := ((resolves_open r _ chain).append (first.append (conditions.append round))).close
    rwa [← inner] at all
  | .breakLoop, r, chain, _, _ => .refl r chain
  | .continueLoop, r, chain, _, _ => .refl r chain
  | .funDecl decl, r, chain, strata, lexical => by
    simp [Stmt.tokens] at lexical
    exact (resolves_declared r decl.name decl.line chain).append (decl.resolves .function _ _ strata lexical)
  | .returnValue value? line, r, chain, _, _ => (walked_return value? line r).resolves chain
  | .classDecl name superclass? methods line, r, chain, strata, lexical => by
    have inside : Lexical (FunctionDecl.tokensAll methods) := by
      simp [Stmt.tokens] at lexical
      exact lexical.2.2
    have entered := resolves_enterClass (.classDecl name superclass? methods line) name superclass? line r chain
    exact (entered.append (FunctionDecl.resolvesAll methods _ _ strata inside)).leaveClass r.classKind

theorem FunctionDecl.resolves : ∀ (f : FunctionDecl) (kind : FunctionKind) (r : Resolution)
    (chain : List Place), f.Stratified → Lexical f.tokens →
    Resolves r (f.resolve kind r) chain chain (f.sites chain)
  | { name, params, body, line }, kind, r, chain, strata, lexical => by
    simp [FunctionDecl.tokens] at lexical
    let scope := ScopeSite.function ⟨name, params, body, line⟩
    have inside := Stmt.resolvesAll body (declareParams params line { r with functionKind := kind }.openScope)
      (⟨scope, params⟩ :: chain) strata lexical.2.2
    have entered := resolves_params params line { r with functionKind := kind }.openScope chain scope
      [] params (by simp)
    obtain ⟨names, last⟩ := Stmt.afterAll_cons body ⟨scope, params⟩ chain
    rw [last] at inside
    have opened := resolves_open { r with functionKind := kind } scope chain
    exact (opened.append (entered.append inside)).close.congr ⟨rfl, rfl, rfl⟩ ⟨rfl, rfl, rfl⟩

theorem Stmt.resolvesAll : ∀ (ss : List Stmt) (r : Resolution) (chain : List Place), Stmt.StratifiedAll ss →
    Lexical (Stmt.tokensAll ss) →
    Resolves r (Stmt.resolveAll ss r) chain (Stmt.afterAll chain ss) (Stmt.sitesAll ss chain)
  | [], r, chain, _, _ => .refl r chain
  | s :: ss, r, chain, ⟨first, rest⟩, lexical => by
    simp [Stmt.tokensAll] at lexical
    exact (s.resolves r chain first lexical.1).append (Stmt.resolvesAll ss _ _ rest lexical.2)

theorem FunctionDecl.resolvesAll : ∀ (fs : List FunctionDecl) (r : Resolution) (chain : List Place),
    FunctionDecl.StratifiedAll fs → Lexical (FunctionDecl.tokensAll fs) →
    Resolves r (FunctionDecl.resolveMethods fs r) chain chain (FunctionDecl.sitesAll fs chain)
  | [], r, chain, _, _ => .refl r chain
  | f :: fs, r, chain, ⟨first, rest⟩, lexical => by
    simp [FunctionDecl.tokensAll] at lexical
    exact (f.resolves _ r chain first lexical.1).append (FunctionDecl.resolvesAll fs _ _ rest lexical.2)

end

/-- The walk over a program without errors gives each reference the innermost scope that has its name. -/
theorem resolve_sent {program : List Stmt} (strata : Stmt.StratifiedAll program)
    (lexical : Lexical (Stmt.tokensAll program)) (clean : (resolve program).diagnostics = [])
    (distinct : (siteIds (Stmt.sitesAll program [])).Nodup) :
    ∀ site ∈ Stmt.sitesAll program [], site.Sent (resolve program).distances := by
  have resolves := Stmt.resolvesAll program .start [] strata lexical
  exact (resolves.finds clean trivial).sent distinct fun _ _ => rfl

theorem resolve_agrees {program : List Stmt} (strata : Stmt.StratifiedAll program)
    (lexical : Lexical (Stmt.tokensAll program)) (clean : (resolve program).diagnostics = [])
    (distinct : (siteIds (Stmt.sitesAll program [])).Nodup) :
    ∀ site ∈ Stmt.sitesAll program [], site.Agrees (resolve program).distances :=
  fun site member => (resolve_sent strata lexical clean distinct site member).agrees

theorem resolve_distinct {program : List Stmt} (strata : Stmt.StratifiedAll program)
    (lexical : Lexical (Stmt.tokensAll program)) : Table.Distinct (resolve program).distances :=
  (Stmt.resolvesAll program .start [] strata lexical).distinct List.nodup_nil

theorem resolve_others {program : List Stmt} (strata : Stmt.StratifiedAll program)
    (lexical : Lexical (Stmt.tokensAll program)) (clean : (resolve program).diagnostics = []) {id : Nat}
    (outside : id ∉ siteIds (Stmt.sitesAll program [])) : (resolve program).distances.get? id = none := by
  have resolves := Stmt.resolvesAll program .start [] strata lexical
  exact (resolves.finds clean trivial).others id outside

end Lox
