import Mathlib.Data.List.Basic
import Lox.Syntax.Polish

/-!
Words, quoted texts and lists of them in parentheses, and that their text says what they are. A word holds
nothing that parts words, and a quoted text no quote, so that the text of each form ends where the form does.
-/

namespace Lox

inductive Form
  | word (text : String)
  | quoted (contents : String)
  | list (items : List Form)

mutual

def Form.text : Form → String
  | .word text => text
  | .quoted contents => "\"" ++ contents ++ "\""
  | .list items => "(" ++ " ".intercalate (Form.textAll items) ++ ")"

def Form.textAll : List Form → List String
  | [] => []
  | f :: fs => f.text :: Form.textAll fs

end

/-- Whether a character is in no word. -/
def isApart (c : Char) : Bool :=
  c = ' ' || c = '\n' || c = '(' || c = ')' || c = '"'

def IsWord (cs : List Char) : Prop :=
  cs ≠ [] ∧ ∀ c ∈ cs, isApart c = false

mutual

/-- Whether the words and quoted texts of a form can be told from what is around them. -/
def Form.Legible : Form → Prop
  | .word text => IsWord text.toList
  | .quoted contents => '"' ∉ contents.toList
  | .list items => Form.LegibleAll items

def Form.LegibleAll : List Form → Prop
  | [] => True
  | f :: fs => f.Legible ∧ Form.LegibleAll fs

end

/-- What may stand behind a form: nothing, or something that no word goes on with. -/
def Parted (cs : List Char) : Prop :=
  ∀ c ∈ cs.head?, isApart c = true

/-- The text of further items of a list. -/
def Form.moreText (fs : List Form) : List Char :=
  fs.flatMap fun f => ' ' :: f.text.toList

variable {f g : Form} {fs gs : List Form} {cs ds rest rest' : List Char}

theorem parted_cons {c : Char} (apart : isApart c = true) (cs : List Char) : Parted (c :: cs) :=
  fun _ same => Option.some.inj same ▸ apart

theorem Form.textAll_eq (fs : List Form) : Form.textAll fs = fs.map Form.text := by
  induction fs with
  | nil => rfl
  | cons f fs ih => rw [Form.textAll, ih, List.map_cons]

theorem Form.legibleAll_iff : Form.LegibleAll fs ↔ ∀ f ∈ fs, f.Legible := by
  induction fs with
  | nil => simp [Form.LegibleAll]
  | cons f fs ih => rw [Form.LegibleAll, ih, List.forall_mem_cons]

theorem toList_intercalate_cons (t : String) (ts : List String) :
    (" ".intercalate (t :: ts)).toList = t.toList ++ ts.flatMap fun t => ' ' :: t.toList := by
  induction ts generalizing t with
  | nil => simp
  | cons u us ih => simp [String.intercalate_cons_cons, ih]

theorem Form.text_list_cons (f : Form) (fs : List Form) :
    (Form.list (f :: fs)).text.toList = '(' :: (f.text.toList ++ Form.moreText fs) ++ [')'] := by
  have more : (Form.textAll fs).flatMap (fun t => ' ' :: t.toList) = Form.moreText fs := by
    rw [Form.textAll_eq, List.flatMap_map]
    rfl
  simp only [Form.text, Form.textAll, String.toList_append, toList_intercalate_cons, more]
  rfl

theorem parted_more (rest : List Char) : Parted (Form.moreText fs ++ ')' :: rest) := by
  cases fs with
  | nil => exact parted_cons rfl rest
  | cons f fs => exact parted_cons rfl _

theorem IsWord.run (word : IsWord cs) (parted : Parted rest) : (cs ++ rest).takeWhile (! isApart ·) = cs := by
  rw [List.takeWhile_append_of_pos fun c member => by rw [word.2 c member]; rfl]
  cases rest with
  | nil => exact List.append_nil cs
  | cons c rest => rw [List.takeWhile_cons_of_neg (by simp [parted c rfl]), List.append_nil]

theorem word_unique (word : IsWord cs) (word' : IsWord ds) (parted : Parted rest) (parted' : Parted rest')
    (same : cs ++ rest = ds ++ rest') : cs = ds ∧ rest = rest' := by
  have equal : cs = ds := by
    rw [← word.run parted, same, word'.run parted']
  exact ⟨equal, List.append_cancel_left (equal ▸ same)⟩

/-- The character that a form that is no word starts with. -/
def Form.opening? : Form → Option Char
  | .word _ => none
  | .quoted _ => some '"'
  | .list _ => some '('

theorem Form.text_first (legible : f.Legible) :
    ∃ c cs, f.text.toList = c :: cs ∧ c ≠ ')' ∧ f.opening? = if isApart c then some c else none := by
  cases f with
  | word text =>
    obtain ⟨c, cs, same⟩ := List.exists_cons_of_ne_nil legible.1
    have plain : isApart c = false := legible.2 c (same ▸ List.mem_cons_self)
    refine ⟨c, cs, same, ?_, by rw [plain]; rfl⟩
    rintro rfl
    exact absurd plain (by decide)
  | quoted contents => exact ⟨'"', (contents ++ "\"").toList, by simp [Form.text], by decide, rfl⟩
  | list items => exact ⟨'(', (" ".intercalate (Form.textAll items) ++ ")").toList, by simp [Form.text], by decide, rfl⟩

theorem Form.opening_same (legible : f.Legible) (legible' : g.Legible)
    (same : f.text.toList ++ rest = g.text.toList ++ rest') : f.opening? = g.opening? := by
  obtain ⟨c, cs, starts, -, opening⟩ := Form.text_first legible
  obtain ⟨d, ds, starts', -, opening'⟩ := Form.text_first legible'
  rw [starts, starts'] at same
  rw [opening, opening', (List.cons.inj same).1]

/-- An empty list goes on with its closing parenthesis, and any other one with a form. -/
theorem Form.empty_apart (legible : f.Legible) :
    (Form.list []).text.toList ++ rest ≠ (Form.list (f :: fs)).text.toList ++ rest' := by
  obtain ⟨c, cs, starts, noClose, -⟩ := Form.text_first legible
  rw [Form.text_list_cons, starts]
  intro equal
  exact noClose (List.cons.inj (List.cons.inj equal).2).1.symm

theorem quoted_unique {s t : String} (raw : '"' ∉ s.toList) (raw' : '"' ∉ t.toList)
    (same : (Form.quoted s).text.toList ++ rest = (Form.quoted t).text.toList ++ rest') : s = t ∧ rest = rest' := by
  have run (u : String) (more : List Char) (raw : '"' ∉ u.toList) :
      (u.toList ++ '"' :: more).takeWhile (· != '"') = u.toList := by
    rw [List.takeWhile_append_of_pos fun c member => bne_iff_ne.mpr (by rintro rfl; exact raw member),
      List.takeWhile_cons_of_neg (by decide), List.append_nil]
  simp only [Form.text, String.toList_append, List.append_assoc] at same
  have inside : s.toList ++ '"' :: rest = t.toList ++ '"' :: rest' := List.tail_eq_of_cons_eq same
  have equal : s.toList = t.toList := by
    rw [← run s rest raw, inside, run t rest' raw']
  rw [equal] at inside
  exact ⟨String.toList_inj.mp equal, List.tail_eq_of_cons_eq (List.append_cancel_left inside)⟩

mutual

/-- A text starts with at most one form that ends there. -/
theorem Form.unique : ∀ {f g : Form} {rest rest' : List Char}, f.Legible → g.Legible → Parted rest → Parted rest' →
    f.text.toList ++ rest = g.text.toList ++ rest' → f = g ∧ rest = rest'
  | .word text, .word text', _, _, legible, legible', parted, parted', same => by
    obtain ⟨equal, behind⟩ := word_unique legible legible' parted parted' same
    exact ⟨congrArg Form.word (String.toList_inj.mp equal), behind⟩
  | .quoted s, .quoted t, _, _, legible, legible', _, _, same => by
    obtain ⟨rfl, behind⟩ := quoted_unique legible legible' same
    exact ⟨rfl, behind⟩
  | .list [], .list [], _, _, _, _, _, _, same => ⟨rfl, List.append_cancel_left same⟩
  | .list [], .list (_ :: _), _, _, _, legible', _, _, same => absurd same (Form.empty_apart legible'.1)
  | .list (_ :: _), .list [], _, _, legible, _, _, _, same => absurd same.symm (Form.empty_apart legible.1)
  | .list (f :: fs), .list (g :: gs), rest, rest', legible, legible', _, _, same => by
    rw [Form.text_list_cons, Form.text_list_cons] at same
    simp only [List.cons_append, List.append_assoc] at same
    obtain ⟨rfl, behind⟩ :=
      Form.unique legible.1 legible'.1 (parted_more rest) (parted_more rest') (List.cons.inj same).2
    obtain ⟨rfl, equal⟩ := Form.unique_more legible.2 legible'.2 behind
    exact ⟨rfl, equal⟩
  | .word _, .quoted _, _, _, legible, legible', _, _, same
  | .word _, .list _, _, _, legible, legible', _, _, same
  | .quoted _, .word _, _, _, legible, legible', _, _, same
  | .quoted _, .list _, _, _, legible, legible', _, _, same
  | .list _, .word _, _, _, legible, legible', _, _, same
  | .list _, .quoted _, _, _, legible, legible', _, _, same =>
    nomatch Form.opening_same legible legible' same

theorem Form.unique_more : ∀ {fs gs : List Form} {rest rest' : List Char}, Form.LegibleAll fs → Form.LegibleAll gs →
    Form.moreText fs ++ ')' :: rest = Form.moreText gs ++ ')' :: rest' → fs = gs ∧ rest = rest'
  | [], [], _, _, _, _, same => ⟨rfl, (List.cons.inj same).2⟩
  | [], g :: gs, _, _, _, _, same => absurd (List.cons.inj same).1 (by decide)
  | f :: fs, [], _, _, _, _, same => absurd (List.cons.inj same).1 (by decide)
  | f :: fs, g :: gs, rest, rest', ⟨first, others⟩, ⟨first', others'⟩, same => by
    simp only [Form.moreText, List.flatMap_cons, List.cons_append, List.append_assoc] at same
    obtain ⟨rfl, behind⟩ := Form.unique first first' (parted_more rest) (parted_more rest') (List.cons.inj same).2
    obtain ⟨rfl, equal⟩ := Form.unique_more others others' behind
    exact ⟨rfl, equal⟩

end

/-! ### Lines -/

/-- The text of some forms, a line each. -/
def Form.lines (fs : List Form) : List Char :=
  fs.flatMap fun f => f.text.toList ++ ['\n']

/-- Forms can be told from their lines, though a form may go over several of them. -/
theorem Form.lines_unique (legible : Form.LegibleAll fs) (legible' : Form.LegibleAll gs)
    (same : Form.lines fs = Form.lines gs) : fs = gs := by
  have some (f : Form) (fs : List Form) : Form.lines (f :: fs) ≠ [] := by simp [Form.lines]
  induction fs generalizing gs with
  | nil =>
    cases gs with
    | nil => rfl
    | cons g gs => exact absurd same.symm (some g gs)
  | cons f fs ih =>
    cases gs with
    | nil => exact absurd same (some f fs)
    | cons g gs =>
      simp only [Form.lines, List.flatMap_cons, List.append_assoc] at same
      obtain ⟨rfl, behind⟩ := Form.unique legible.1 legible'.1 (parted_cons rfl _) (parted_cons rfl _) same
      rw [ih legible.2 legible'.2 (List.cons.inj behind).2]

end Lox
