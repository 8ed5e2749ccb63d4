import Mathlib.Data.Finset.Card
import Mathlib.Data.Finset.Dedup
import Mathlib.Data.List.Forall2
import Mathlib.Logic.Relation
import Mathlib.Tactic.Choose
import Lox.Machine.Render

/-!
Texts of values, also of arrays that contain themselves. An outline says how a value is written: which arrays are
written with their elements and which ones are only marked. There is one outline of a value in which exactly the
arrays within themselves are marked, and `render` writes that one.
-/

namespace Lox

/-! ### Outlines -/

inductive Outline
  | scalar (v : Value)
  | marked (r : Ref .array)
  | listed (r : Ref .array) (elements : List Outline)

instance : Inhabited Outline :=
  ⟨.scalar .nil⟩

namespace Outline

def value : Outline → Value
  | .scalar v => v
  | .marked r | .listed r _ => .array r

def text (h : Heap) : Outline → String
  | .scalar v => h.renderScalar v
  | .marked _ => "[...]"
  | .listed _ elements => "[" ++ ", ".intercalate (elements.map (text h)) ++ "]"

/-- An occurrence in an outline, with the arrays that are its ancestors, the nearest one first. -/
inductive Part (whole : Outline) : List (Ref .array) → Outline → Prop
  | root : Part whole [] whole
  | element {ancestors r elements e} :
    Part whole ancestors (.listed r elements) → e ∈ elements → Part whole (r :: ancestors) e

variable {o whole : Outline} {ancestors : List (Ref .array)} {r : Ref .array} {elements : List Outline}

/-- A part of an element is a part of the array. -/
theorem Part.within {e part : Outline} (inner : e.Part ancestors part) (member : e ∈ elements) :
    (Outline.listed r elements).Part (ancestors ++ [r]) part := by
  induction inner with
  | root => exact .element .root member
  | element _ among ih => exact .element ih among

/-- A part of an array is the array, or a part of one of its elements. -/
theorem Part.of_listed {part : Outline} (inner : (Outline.listed r elements).Part ancestors part) :
    (ancestors = [] ∧ part = .listed r elements) ∨
      ∃ outer e, ancestors = outer ++ [r] ∧ e ∈ elements ∧ e.Part outer part := by
  induction inner with
  | root => exact Or.inl ⟨rfl, rfl⟩
  | element _ among ih =>
    rcases ih with ⟨rfl, same⟩ | ⟨outer, e, rfl, member, within⟩
    · cases same
      exact Or.inr ⟨[], _, rfl, among, .root⟩
    · exact Or.inr ⟨_ :: outer, e, rfl, member, .element within among⟩

/-- Without elements, there are no other parts. -/
theorem Part.eq_root {part : Outline} (inner : o.Part ancestors part) (leaf : ∀ r elements, o ≠ .listed r elements) :
    ancestors = [] ∧ part = o := by
  induction inner with
  | root => exact ⟨rfl, rfl⟩
  | element _ _ ih => exact absurd ih.2.symm (leaf _ _)

end Outline

namespace Heap

variable (h : Heap)

/-- An outline of a value that stands inside some arrays. An array in it is marked if and only if it is one of
those or among its own ancestors; all others have their elements. -/
structure Outlines (enclosing : List (Ref .array)) (v : Value) (o : Outline) : Prop where
  value : o.value = v
  scalars : ∀ ancestors w, o.Part ancestors (.scalar w) → ∀ r, w ≠ .array r
  elements : ∀ ancestors r es, o.Part ancestors (.listed r es) → es.map Outline.value = (h.elements r).toList
  marks : ∀ ancestors part r, o.Part ancestors part → part.value = .array r →
    (part = .marked r ↔ r ∈ ancestors ++ enclosing)

/-- An array has another one as an element. -/
def Holds (r s : Ref .array) : Prop :=
  .array s ∈ (h.elements r).toList

def Cyclic (r : Ref .array) : Prop :=
  Relation.TransGen h.Holds r r

/-- A value is an array or holds it, at some depth. -/
def Shows (v : Value) (r : Ref .array) : Prop :=
  ∃ s, v = .array s ∧ Relation.ReflTransGen h.Holds s r

/-- Plain recursive rendering, unless values nest `n` deep. -/
def spell : Nat → Value → Option String
  | 0, _ => none
  | n + 1, .array r => ((h.elements r).toList.mapM (spell n)).map fun texts => "[" ++ ", ".intercalate texts ++ "]"
  | _ + 1, v => some (h.renderScalar v)

variable {h} {enclosing : List (Ref .array)} {v : Value} {o : Outline} {r s : Ref .array} {n : Nat}

/-! ### The outlines of each kind of value -/

/-- What goes with each element is a function of it. -/
theorem forall₂_iff_map {α β : Type} {R : α → β → Prop} {f : α → β} {as : List α} {bs : List β}
    (each : ∀ a ∈ as, ∀ b, R a b ↔ b = f a) : List.Forall₂ R as bs ↔ bs = as.map f := by
  induction as generalizing bs with
  | nil => exact List.forall₂_nil_left_iff
  | cons a as ih =>
    have others := fun bs => @ih bs fun b member => each b (List.mem_cons_of_mem a member)
    cases bs with
    | nil => exact iff_of_false nofun nofun
    | cons b bs => rw [List.forall₂_cons, each a List.mem_cons_self, others, List.map_cons, List.cons.injEq]

theorem outlines_scalar (scalar : ∀ r, v ≠ .array r) : h.Outlines enclosing v o ↔ o = .scalar v := by
  constructor
  · intro outlines
    cases o with
    | scalar w => exact congrArg _ outlines.value
    | marked r => exact absurd outlines.value.symm (scalar r)
    | listed r _ => exact absurd outlines.value.symm (scalar r)
  · rintro rfl
    have alone {ancestors part} (inner : (Outline.scalar v).Part ancestors part) : part = .scalar v :=
      (inner.eq_root (fun _ _ => nofun)).2
    refine ⟨rfl, fun _ w inner => ?_, fun _ _ _ inner => ?_, fun _ part r inner same => ?_⟩
    · cases alone inner
      exact scalar
    · cases alone inner
    · cases alone inner
      exact absurd same (scalar r)

theorem outlines_open (enclosed : r ∈ enclosing) : h.Outlines enclosing (.array r) o ↔ o = .marked r := by
  constructor
  · exact fun outlines => (outlines.marks [] o r .root outlines.value).mpr enclosed
  · rintro rfl
    have alone {ancestors part} (inner : (Outline.marked r).Part ancestors part) : ancestors = [] ∧ part = .marked r :=
      inner.eq_root (fun _ _ => nofun)
    refine ⟨rfl, fun _ _ inner => ?_, fun _ _ _ inner => ?_, fun _ _ _ inner same => ?_⟩
    · cases (alone inner).2
    · cases (alone inner).2
    · obtain ⟨rfl, rfl⟩ := alone inner
      cases same
      exact iff_of_true rfl enclosed

theorem outlines_closed (fresh : r ∉ enclosing) :
    h.Outlines enclosing (.array r) o ↔
      ∃ es, o = .listed r es ∧ List.Forall₂ (h.Outlines (r :: enclosing)) (h.elements r).toList es := by
  constructor
  · intro outlines
    have unmarked := mt (outlines.marks [] o r .root outlines.value).mp fresh
    cases o with
    | scalar w => exact absurd outlines.value (outlines.scalars [] w .root r)
    | marked s =>
      cases outlines.value
      exact absurd rfl unmarked
    | listed s es =>
      cases outlines.value
      refine ⟨es, rfl, ?_⟩
      rw [← outlines.elements [] r es .root, List.forall₂_map_left_iff, List.forall₂_same]
      intro e member
      refine ⟨rfl, fun _ _ inner => ?_, fun _ _ _ inner => ?_, fun ancestors _ _ inner same => ?_⟩
      · exact outlines.scalars _ _ (inner.within member)
      · exact outlines.elements _ _ _ (inner.within member)
      · have marks := outlines.marks _ _ _ (inner.within member) same
        rwa [List.append_assoc] at marks
  · rintro ⟨es, rfl, each⟩
    have outlined {e} (member : e ∈ es) : ∃ w, h.Outlines (r :: enclosing) w e := by
      obtain ⟨i, bound, rfl⟩ := List.getElem_of_mem member
      exact ⟨_, each.get (each.length_eq ▸ bound) bound⟩
    refine ⟨rfl, fun _ _ inner => ?_, fun _ _ _ inner => ?_, fun _ _ _ inner same => ?_⟩
    · rcases inner.of_listed with ⟨_, never⟩ | ⟨_, e, _, member, within⟩
      · cases never
      · obtain ⟨w, outlines⟩ := outlined member
        exact outlines.scalars _ _ within
    · rcases inner.of_listed with ⟨_, root⟩ | ⟨_, e, _, member, within⟩
      · cases root
        have values : List.Forall₂ Eq (h.elements r).toList (es.map Outline.value) :=
          List.forall₂_map_right_iff.mpr (each.imp fun _ _ outlines => outlines.value.symm)
        exact (List.forall₂_eq_eq_eq ▸ values).symm
      · obtain ⟨w, outlines⟩ := outlined member
        exact outlines.elements _ _ _ within
    · rcases inner.of_listed with ⟨rfl, root⟩ | ⟨outer, e, rfl, member, within⟩
      · subst root
        cases same
        exact iff_of_false nofun fresh
      · obtain ⟨w, outlines⟩ := outlined member
        rw [List.append_assoc]
        exact outlines.marks _ _ _ within same

/-! ### Writing -/

/-- If what is done for each element leaves the state as it is, so does the whole. -/
theorem mapM_restores {σ α β : Type} {state : σ} {f : α → StateT σ Option β} {g : α → Option β} {as : List α}
    (each : ∀ a ∈ as, f a state = (g a).map (·, state)) : as.mapM f state = (as.mapM g).map (·, state) := by
  induction as with
  | nil => rfl
  | cons a as ih =>
    have first := each a List.mem_cons_self
    have others := ih fun b member => each b (List.mem_cons_of_mem a member)
    rw [List.mapM_cons, List.mapM_cons]
    change (f a state >>= fun done => (as.mapM f >>= fun bs => pure (done.1 :: bs)) done.2) = _
    rw [first]
    cases g a with
    | none => rfl
    | some b =>
      change (as.mapM f state >>= fun done => pure (b :: done.1, done.2)) = _
      rw [others]
      cases as.mapM g <;> rfl

theorem renderOpen_scalar (scalar : ∀ r, v ≠ .array r) :
    h.renderOpen (n + 1) v enclosing = some (h.renderScalar v, enclosing) := by
  cases v with
  | array r => exact absurd rfl (scalar r)
  | _ => rfl

theorem renderOpen_open (enclosed : r ∈ enclosing) :
    h.renderOpen (n + 1) (.array r) enclosing = some ("[...]", enclosing) := by
  change (if r ∈ enclosing then _ else _ : StateT _ Option String) enclosing = _
  rw [if_pos enclosed]
  rfl

/-- The elements of an array are written with the array open, which is closed behind them. -/
theorem renderOpen_closed {g : Value → Option String} (fresh : r ∉ enclosing)
    (each : ∀ w ∈ (h.elements r).toList, h.renderOpen n w (r :: enclosing) = (g w).map (·, r :: enclosing)) :
    h.renderOpen (n + 1) (.array r) enclosing =
      ((h.elements r).toList.mapM g).map fun texts => ("[" ++ ", ".intercalate texts ++ "]", enclosing) := by
  change (if r ∈ enclosing then _ else _ : StateT _ Option String) enclosing = _
  rw [if_neg fresh]
  change ((h.elements r).toList.mapM (h.renderOpen n) (r :: enclosing) >>= fun done =>
    some ("[" ++ ", ".intercalate done.1 ++ "]", done.2.tail)) = _
  rw [mapM_restores each]
  cases (h.elements r).toList.mapM g <;> rfl

/-! ### Writing ends -/

/-- The number of arrays of the heap that are not open. -/
def unopened (h : Heap) (enclosing : List (Ref .array)) : Nat :=
  (Finset.range h.arrays.size \ (enclosing.map (·.index)).toFinset).card

theorem unopened_le : h.unopened enclosing ≤ h.arrays.size :=
  (Finset.card_le_card Finset.sdiff_subset).trans_eq (Finset.card_range _)

/-- An array that has elements is one of the heap, so there are fewer to open behind it. -/
theorem unopened_lt (fresh : r ∉ enclosing) (holds : v ∈ (h.elements r).toList) :
    h.unopened (r :: enclosing) < h.unopened enclosing := by
  have made : r.index < h.arrays.size := by
    by_contra absent
    rw [elements, Array.getElem?_eq_none (Nat.le_of_not_lt absent)] at holds
    cases holds
  have closed : r.index ∉ (enclosing.map (·.index)).toFinset := by
    intro member
    obtain ⟨⟨_⟩, opened, rfl⟩ := List.mem_map.mp (List.mem_toFinset.mp member)
    exact fresh opened
  refine Finset.card_lt_card ((Finset.ssubset_iff_of_subset ?_).mpr ⟨r.index, ?_, ?_⟩)
  · refine Finset.sdiff_subset_sdiff (Finset.Subset.refl _) ?_
    rw [List.map_cons, List.toFinset_cons]
    exact Finset.subset_insert _ _
  · exact Finset.mem_sdiff.mpr ⟨Finset.mem_range.mpr made, closed⟩
  · simp

/-- There is one outline of a value, and that is what is written if there is room to open the arrays left. -/
theorem renderOpen_outline (enough : h.unopened enclosing < n) :
    ∃ o, (∀ o', h.Outlines enclosing v o' ↔ o' = o) ∧ h.renderOpen n v enclosing = some (o.text h, enclosing) := by
  induction n generalizing enclosing v with
  | zero => cases enough
  | succ n ih =>
    by_cases scalar : ∀ r, v ≠ .array r
    · refine ⟨.scalar v, fun _ => outlines_scalar scalar, ?_⟩
      rw [renderOpen_scalar scalar, Outline.text]
    obtain ⟨r, rfl⟩ : ∃ r, v = .array r := by
      push Not at scalar
      exact scalar
    by_cases enclosed : r ∈ enclosing
    · refine ⟨.marked r, fun _ => outlines_open enclosed, ?_⟩
      rw [renderOpen_open enclosed, Outline.text]
    have inside : ∀ w ∈ (h.elements r).toList, h.unopened (r :: enclosing) < n :=
      fun w holds => by have := unopened_lt enclosed holds; omega
    choose! outline unique written using fun w holds => ih (v := w) (inside w holds)
    refine ⟨.listed r ((h.elements r).toList.map outline), fun o' => ?_, ?_⟩
    · rw [outlines_closed enclosed]
      constructor
      · rintro ⟨es, rfl, each⟩
        rw [(forall₂_iff_map unique).mp each]
      · rintro rfl
        exact ⟨_, rfl, (forall₂_iff_map unique).mpr rfl⟩
    · rw [renderOpen_closed (g := fun w => some ((outline w).text h)) enclosed written, Outline.text, List.map_map]
      exact congrArg (Option.map _) List.mapM_pure

/-! ### Cycles -/

/-- An array that is an ancestor of another one in an outline holds it, at some depth. -/
theorem Outlines.holds {ancestors : List (Ref .array)} {part : Outline} (outlines : h.Outlines enclosing v o)
    (inner : o.Part ancestors part) (same : part.value = .array s) (member : r ∈ ancestors) :
    Relation.TransGen h.Holds r s := by
  induction inner generalizing s with
  | root => cases member
  | @element _ t es e outer among ih =>
    have holds : h.Holds t s := by
      rw [Holds, ← outlines.elements _ t es outer]
      exact List.mem_map.mpr ⟨e, among, same⟩
    rcases List.mem_cons.mp member with rfl | beyond
    · exact .single holds
    · exact (ih rfl beyond).tail holds

/-- Without arrays within themselves, it makes no difference which arrays are open. -/
theorem renderOpen_eq_spell (acyclic : ∀ s, h.Shows v s → ¬ h.Cyclic s)
    (around : ∀ r ∈ enclosing, ∀ s, v = .array s → Relation.TransGen h.Holds r s) :
    h.renderOpen n v enclosing = (h.spell n v).map (·, enclosing) := by
  induction n generalizing v enclosing with
  | zero => rfl
  | succ n ih =>
    by_cases scalar : ∀ r, v ≠ .array r
    · rw [renderOpen_scalar scalar]
      cases v with
      | array r => exact absurd rfl (scalar r)
      | _ => rfl
    obtain ⟨r, rfl⟩ : ∃ r, v = .array r := by
      push Not at scalar
      exact scalar
    have fresh : r ∉ enclosing := fun enclosed => acyclic r ⟨r, rfl, .refl⟩ (around r enclosed r rfl)
    rw [renderOpen_closed (g := h.spell n) fresh fun w holds => ih (v := w) ?_ ?_]
    · rw [spell, Option.map_map]
      rfl
    · rintro s ⟨t, rfl, shown⟩
      exact acyclic s ⟨r, rfl, .head holds shown⟩
    · rintro t member s rfl
      rcases List.mem_cons.mp member with rfl | beyond
      · exact .single holds
      · exact (around t beyond r rfl).tail holds

theorem render_eq {t : String} (written : ∀ n > h.arrays.size, h.renderOpen n v [] = some (t, [])) :
    h.render v = t := by
  rw [render, StateT.run'_eq, StateT.run, written _ (Nat.lt_succ_self _)]
  rfl

/-- Writing a value ends with the same arrays open as before, and shows the one outline in which an array is marked
if and only if it is among its ancestors. So an array is written in full wherever it occurs unless it contains
itself, and a value without such arrays is written as plain recursion writes it. -/
theorem render_outline (h : Heap) (v : Value) :
    (∀ enclosing, ∃ o, (∀ o', h.Outlines enclosing v o' ↔ o' = o) ∧
      ∀ n > h.arrays.size, h.renderOpen n v enclosing = some (o.text h, enclosing)) ∧
    (∃ o, h.Outlines [] v o ∧ h.render v = o.text h ∧
      ∀ ancestors part r, o.Part ancestors part → part.value = .array r → ¬ h.Cyclic r →
        ∃ elements, part = .listed r elements) ∧
    ((∀ r, h.Shows v r → ¬ h.Cyclic r) → ∀ n > h.arrays.size, h.spell n v = some (h.render v)) := by
  have ends (enclosing : List (Ref .array)) : ∃ o, (∀ o', h.Outlines enclosing v o' ↔ o' = o) ∧
      ∀ n > h.arrays.size, h.renderOpen n v enclosing = some (o.text h, enclosing) := by
    obtain ⟨o, unique, _⟩ := renderOpen_outline (h := h) (v := v) (Nat.lt_succ_self (h.unopened enclosing))
    refine ⟨o, unique, fun n enough => ?_⟩
    obtain ⟨o', unique', written⟩ := renderOpen_outline (v := v) (unopened_le.trans_lt enough)
    rwa [(unique o').mp ((unique' o').mpr rfl)] at written
  refine ⟨ends, ?_, fun acyclic n enough => ?_⟩
  · obtain ⟨o, unique, written⟩ := ends []
    have outlines := (unique o).mpr rfl
    refine ⟨o, outlines, render_eq written, fun ancestors part r inner same acyclic => ?_⟩
    cases part with
    | scalar w => exact absurd same (outlines.scalars _ _ inner r)
    | marked s =>
      cases same
      have marked := (outlines.marks _ _ _ inner rfl).mp rfl
      rw [List.append_nil] at marked
      exact absurd (outlines.holds inner rfl marked) acyclic
    | listed s elements =>
      cases same
      exact ⟨elements, rfl⟩
  · obtain ⟨o, _, written⟩ := ends []
    have plain : h.renderOpen n v [] = _ := renderOpen_eq_spell acyclic fun _ => nofun
    rw [written n enough] at plain
    obtain ⟨t, spelt, same⟩ := Option.map_eq_some_iff.mp plain.symm
    cases same
    rw [spelt, render_eq written]

/-- A heap with nothing but some arrays. -/
def ofArrays (arrays : Array (Array Value)) : Heap :=
  { start with arrays }

/-- An array that occurs twice in another one is not within itself. -/
theorem render_outline_shared :
    let shared := ofArrays #[#[.nil], #[.array ⟨0⟩, .array ⟨0⟩]]
    (∀ r, shared.Shows (.array ⟨1⟩) r → ¬ shared.Cyclic r) ∧
      shared.spell 3 (.array ⟨1⟩) = some (shared.render (.array ⟨1⟩)) ∧
      shared.render (.array ⟨1⟩) = "[[nil], [nil]]" := by
  intro shared
  have holds {r s : Ref .array} (holds : shared.Holds r s) : r = ⟨1⟩ ∧ s = ⟨0⟩ := by
    rcases r with ⟨_ | _ | i⟩
    · simp [shared, Holds, elements, ofArrays] at holds
    · simpa [shared, Holds, elements, ofArrays] using holds
    · simp [shared, Holds, elements, ofArrays] at holds
  have acyclic (r : Ref .array) (_ : shared.Shows (.array ⟨1⟩) r) : ¬ shared.Cyclic r := by
    intro cyclic
    obtain ⟨_, first, _⟩ := Relation.TransGen.head'_iff.mp cyclic
    obtain ⟨_, _, last⟩ := Relation.TransGen.tail'_iff.mp cyclic
    cases (holds first).1.symm.trans (holds last).2
  exact ⟨acyclic, (render_outline shared (.array ⟨1⟩)).2.2 acyclic 3 (by decide), by decide +kernel⟩

/-- An array that holds itself and another one that holds it. -/
example :
    (ofArrays #[#[.bool true, .array ⟨0⟩, .array ⟨1⟩], #[.array ⟨0⟩]]).render (.array ⟨0⟩) =
      "[true, [...], [[...]]]" := by
  decide +kernel

end Heap

end Lox
