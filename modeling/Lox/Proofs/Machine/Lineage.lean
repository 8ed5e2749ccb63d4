import Mathlib.Logic.Relation
import Lox.Machine.Execution

/-!
Classes and their superclasses. A superclass is made before its subclasses, so the links to superclasses lead
round no circle and the search for a method ends: it finds the method of the nearest class that has one.
-/

namespace Lox

namespace Heap

variable {h : Heap} {c s owner : Ref .classObject} {name : String} {method : Closure}

/-- A class has a superclass. -/
def Extends (h : Heap) (c s : Ref .classObject) : Prop :=
  (h.classObject? c).bind (·.superclass?) = some s

/-- Some links to superclasses, or none, lead from a class to another one. -/
abbrev Reaches (h : Heap) : Ref .classObject → Ref .classObject → Prop :=
  Relation.ReflTransGen h.Extends

/-- Superclasses are made before their subclasses. -/
def Ordered (h : Heap) : Prop :=
  ∀ c s, h.Extends c s → s.index < c.index

/-- A class has a method of a name, or inherits it from the nearest of its superclasses that has one. -/
structure Inherits (h : Heap) (c : Ref .classObject) (name : String) (owner : Ref .classObject)
    (method : Closure) : Prop where
  reaches : h.Reaches c owner
  own : h.ownMethod? name owner = some method
  nearest : ∀ between, h.Reaches c between → h.Reaches between owner → between ≠ owner →
    h.ownMethod? name between = none

/-! ### Links -/

theorem Ordered.reaches (ordered : h.Ordered) (reaches : h.Reaches c s) : s = c ∨ s.index < c.index := by
  induction reaches with
  | refl => exact Or.inl rfl
  | tail _ link ih =>
    refine Or.inr ?_
    rcases ih with rfl | before
    · exact ordered _ _ link
    · exact Nat.lt_trans (ordered _ _ link) before

theorem Ordered.acyclic (ordered : h.Ordered) (c : Ref .classObject) : ¬ Relation.TransGen h.Extends c c := by
  intro circle
  obtain ⟨s, link, back⟩ := Relation.TransGen.head'_iff.mp circle
  have down := ordered c s link
  rcases ordered.reaches back with rfl | up
  · exact Nat.lt_irrefl _ down
  · exact Nat.lt_asymm down up

/-- A class that is reached from one that has a superclass is that class or reached from its superclass. -/
theorem reaches_cases (link : h.Extends c s) (reaches : h.Reaches c owner) : owner = c ∨ h.Reaches s owner := by
  rcases Relation.ReflTransGen.cases_head reaches with same | ⟨next, first, rest⟩
  · exact Or.inl same.symm
  · obtain rfl : s = next := Option.some.inj (link.symm.trans first)
    exact Or.inr rest

theorem reaches_root (root : (h.classObject? c).bind (·.superclass?) = none) (reaches : h.Reaches c owner) :
    owner = c := by
  rcases Relation.ReflTransGen.cases_head reaches with same | ⟨next, first, _⟩
  · exact same.symm
  · exact nomatch root.symm.trans first

/-! ### The search for a method -/

theorem mem_lineageWithin {n : Nat} (member : s ∈ h.lineageWithin n c) : h.Reaches c s := by
  induction n generalizing c with
  | zero => exact nomatch member
  | succ n ih =>
    rw [lineageWithin] at member
    rcases List.mem_cons.mp member with rfl | member
    · exact .refl
    · split at member
      · exact nomatch member
      · next s link => exact .head link (ih member)

theorem lineageWithin_enough (ordered : h.Ordered) {n m : Nat} (below : c.index < n) (below' : c.index < m) :
    h.lineageWithin n c = h.lineageWithin m c := by
  induction n generalizing c m with
  | zero => exact absurd below (Nat.not_lt_zero _)
  | succ n ih =>
    cases m with
    | zero => exact absurd below' (Nat.not_lt_zero _)
    | succ m =>
      rw [lineageWithin, lineageWithin]
      split
      · rfl
      · next s link =>
        have before := ordered c s link
        rw [ih (c := s) (m := m) (by omega) (by omega)]

theorem lineage_of_present (ordered : h.Ordered) (present : c.index < h.classes.size) :
    h.lineage c = c :: (((h.classObject? c).bind (·.superclass?)).map h.lineage).getD [] := by
  have unfolded : h.lineage c = h.lineageWithin (h.classes.size + 1) c :=
    lineageWithin_enough ordered present (Nat.lt_succ_of_lt present)
  rw [unfolded, lineageWithin]
  cases (h.classObject? c).bind (·.superclass?) <;> rfl

/-- A class that does not have a method of a name asks its superclass, if it has one. -/
theorem method?_of_present (ordered : h.Ordered) (present : c.index < h.classes.size) (name : String) :
    h.method? c name =
      (h.ownMethod? name c).or (((h.classObject? c).bind (·.superclass?)).bind (h.method? · name)) := by
  unfold method?
  rw [lineage_of_present ordered present, List.findSome?_cons]
  cases h.ownMethod? name c with
  | some method => rfl
  | none =>
    rw [Option.none_or]
    cases (h.classObject? c).bind (·.superclass?) <;> rfl

theorem owner_of_method? (found : h.method? c name = some method) :
    ∃ owner, h.Reaches c owner ∧ h.ownMethod? name owner = some method := by
  obtain ⟨owner, member, own⟩ := List.exists_of_findSome?_eq_some found
  exact ⟨owner, mem_lineageWithin member, own⟩

/-- The search finds the method of the nearest class that has one, or no class has one. -/
theorem method?_cases (ordered : h.Ordered) (present : c.index < h.classes.size) (name : String) :
    (∃ owner method, h.method? c name = some method ∧ h.Inherits c name owner method) ∨
    (h.method? c name = none ∧ ∀ owner, h.Reaches c owner → h.ownMethod? name owner = none) := by
  obtain ⟨index⟩ := c
  induction index using Nat.strongRecOn with
  | ind index ih =>
    let c : Ref .classObject := ⟨index⟩
    have search := method?_of_present ordered present name
    cases own : h.ownMethod? name c with
    | some method =>
      rw [own, Option.some_or] at search
      refine Or.inl ⟨c, method, search, .refl, own, fun between down up apart => ?_⟩
      have below := (ordered.reaches down).resolve_left apart
      rcases ordered.reaches up with same | above
      · exact absurd same.symm apart
      · exact absurd below (Nat.lt_asymm above)
    | none =>
      rw [own, Option.none_or] at search
      cases link : (h.classObject? c).bind (·.superclass?) with
      | none =>
        rw [link, Option.bind_none] at search
        exact Or.inr ⟨search, fun owner reaches => reaches_root link reaches ▸ own⟩
      | some s =>
        rw [link, Option.bind_some] at search
        have before : s.index < index := ordered c s link
        rw [search]
        rcases ih s.index before (Nat.lt_trans before present) with ⟨owner, method, found, inherits⟩ | ⟨missing, all⟩
        · refine Or.inl ⟨owner, method, found, .head link inherits.reaches, inherits.own,
            fun between down up apart => ?_⟩
          rcases reaches_cases link down with rfl | down
          · exact own
          · exact inherits.nearest between down up apart
        · refine Or.inr ⟨missing, fun owner reaches => ?_⟩
          rcases reaches_cases link reaches with rfl | reaches
          · exact own
          · exact all owner reaches

end Heap

/-! ### The methods of a class -/

/-- Under its name stands a method that is declared, in the frame of the methods. It is an initializer if the name
is that of initializers. -/
theorem methodTable_get? {scope : Ref .frame} {methods : List FunctionDecl} {name : String} {method : Closure}
    (found : (methodTable scope methods).get? name = some method) :
    ∃ decl ∈ methods, decl.name = name ∧ method = ⟨decl, scope, decl.name = initName⟩ := by
  have all (ms : List FunctionDecl) (t : Table String Closure)
      (found : (ms.foldl (fun t m => t.put m.name ⟨m, scope, m.name = initName⟩) t).get? name = some method) :
      t.get? name = some method ∨ ∃ decl ∈ ms, decl.name = name ∧ method = ⟨decl, scope, decl.name = initName⟩ := by
    induction ms generalizing t with
    | nil => exact Or.inl found
    | cons m ms ih =>
      rcases ih _ found with before | ⟨decl, member, is⟩
      · rw [Table.get?_put] at before
        split at before
        · next same => exact Or.inr ⟨m, List.mem_cons_self, same.symm, (Option.some.inj before).symm⟩
        · exact Or.inl before
      · exact Or.inr ⟨decl, List.mem_cons_of_mem m member, is⟩
  exact (all methods [] found).resolve_left (by simp)

end Lox
