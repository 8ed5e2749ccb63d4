import Lox.Lexeme.Token
import Lox.Table

/-!
Interned names. A context keeps one text for each name that it was asked for, and gives out a symbol, which says
where the text lies. Symbols are the same if their texts lie at the same place; tables look for the hash of a text
first and then for the symbol. A context holds its texts for good, so that no place gets another text: two symbols
are the same exactly if their texts are, and a table by symbol is one by text.
-/

namespace Lox

/-! ### Symbols -/

/-- Where a text lies. -/
structure Symbol where
  place : Nat
deriving DecidableEq

/-- What a context runs on. It hashes texts, and gives a place to each new one. It does not give out a place at
which a text is held, but any other, be it new or one that was given up. -/
structure Host where
  hash : String → UInt64
  place : (held : List Symbol) → Symbol
  unheld : ∀ held, place held ∉ held

/-- A host that hashes texts by their sizes and gives out the place behind those that are held. -/
def Host.counting : Host where
  hash text := text.utf8ByteSize.toUInt64
  place held := ⟨(held.map Symbol.place).max?.getD 0 + 1⟩
  unheld held member := by
    have le := List.le_max?_getD_of_mem (k := 0) (List.mem_map_of_mem (f := Symbol.place) member)
    exact Nat.not_succ_le_self _ le

/-! ### Tables by symbol -/

/-- An entry of a table, with the hash under which it is found. -/
structure SymbolEntry (α : Type) where
  hash : UInt64
  key : Symbol
  value : α

abbrev SymbolTable (α : Type) : Type :=
  List (SymbolEntry α)

namespace SymbolTable

variable {α : Type}

/-- The entry of a hash whose key passes a test. -/
def entry? (hash : UInt64) (test : Symbol → Bool) (t : SymbolTable α) : Option (SymbolEntry α) :=
  t.find? fun entry => entry.hash = hash && test entry.key

/-- Puts a value under a key of a hash, in place of the one that was there. -/
def put (hash : UInt64) (key : Symbol) (value : α) : SymbolTable α → SymbolTable α
  | [] => [⟨hash, key, value⟩]
  | entry :: rest =>
    if entry.hash = hash && entry.key = key then { entry with value } :: rest
    else entry :: put hash key value rest

variable {hash : UInt64} {test : Symbol → Bool} {key : Symbol} {value : α} {entry : SymbolEntry α} {t : SymbolTable α}

theorem entry?_eq_some (found : t.entry? hash test = some entry) :
    entry ∈ t ∧ entry.hash = hash ∧ test entry.key = true := by
  have passes := List.find?_some found
  rw [Bool.and_eq_true, decide_eq_true_eq] at passes
  exact ⟨List.mem_of_find?_eq_some found, passes⟩

theorem entry?_isSome (member : entry ∈ t) (same : entry.hash = hash) (passes : test entry.key = true) :
    (t.entry? hash test).isSome := by
  refine List.find?_isSome.mpr ⟨entry, member, ?_⟩
  rw [Bool.and_eq_true, decide_eq_true_eq]
  exact ⟨same, passes⟩

theorem put_fresh
    (fresh : ∀ entry ∈ t, entry.key ≠ key) : t.put hash key value = t ++ [⟨hash, key, value⟩] := by
  induction t with
  | nil => rfl
  | cons entry rest ih =>
    obtain ⟨other, fresh⟩ := List.forall_mem_cons.mp fresh
    rw [put, if_neg (by simp [other]), ih fresh, List.cons_append]

end SymbolTable

/-! ### Contexts -/

structure Context (host : Host) where
  /-- The texts that were put at places. -/
  texts : Table Symbol String
  /-- A symbol for each text that was asked for. -/
  known : SymbolTable Unit
  keywords : SymbolTable Token

namespace Context

variable {host : Host} {α : Type}

/-- The text of a symbol. -/
def name (c : Context host) (s : Symbol) : String :=
  (c.texts.get? s).getD ""

/-- The symbols whose texts a context holds. -/
def held (c : Context host) : List Symbol :=
  c.known.map (·.key)

/-- The value under a symbol: the hash is that of its text, but the key is this very symbol. -/
def get? (c : Context host) (t : SymbolTable α) (s : Symbol) : Option α :=
  (t.entry? (host.hash (c.name s)) (· = s)).map (·.value)

def put (c : Context host) (t : SymbolTable α) (s : Symbol) (value : α) : SymbolTable α :=
  t.put (host.hash (c.name s)) s value

/-- The symbol of a text that was asked for before, which is looked for by its text. -/
def symbol? (c : Context host) (text : String) : Option Symbol :=
  (c.known.entry? (host.hash text) (c.name · = text)).map (·.key)

/-- Puts a text at a place at which none is held. -/
def allot (c : Context host) (text : String) : Symbol × Context host :=
  let s := host.place c.held
  (s, { c with texts := c.texts.put s text })

/-- The symbol of a text, which is a new one if the text was not asked for before. -/
def intern (c : Context host) (text : String) : Symbol × Context host :=
  match c.symbol? text with
  | some s => (s, c)
  | none =>
    let (s, c) := c.allot text
    (s, { c with known := c.put c.known s () })

def empty : Context host :=
  ⟨[], [], []⟩

def addKeyword (c : Context host) (k : Keyword) : Context host :=
  let (s, c) := c.intern k.spelling
  { c with keywords := c.put c.keywords s (.keyword k) }

/-- A context that knows the keywords. -/
def start (host : Host) : Context host :=
  Keyword.all.foldl addKeyword empty

/-- The keyword that a symbol is. -/
def keyword? (c : Context host) (s : Symbol) : Option Token :=
  c.get? c.keywords s

/-- A table by symbol, read as one by text. -/
def named (c : Context host) (t : SymbolTable α) : Table String α :=
  t.map fun entry => (c.name entry.key, entry.value)

/-! ### What holds of contexts -/

/-- The keys of a table are symbols that a context holds, and the hashes those of their texts. -/
def Keyed (c : Context host) (t : SymbolTable α) : Prop :=
  ∀ entry ∈ t, entry.key ∈ c.held ∧ entry.hash = host.hash (c.name entry.key)

/-- No text is held at two places, and the tables of a context are in order. -/
structure Faithful (c : Context host) : Prop where
  unique : ∀ s ∈ c.held, ∀ t ∈ c.held, c.name s = c.name t → s = t
  known : c.Keyed c.known
  keywords : c.Keyed c.keywords

/-- A context goes on to hold what it held, and keeps the texts of its symbols. -/
structure Onward (c c' : Context host) : Prop where
  held : ∀ s ∈ c.held, s ∈ c'.held
  name : ∀ s ∈ c.held, c'.name s = c.name s
  keywords : c'.keywords = c.keywords

variable {c c₁ c' : Context host} {t : SymbolTable α} {s : Symbol} {text : String} {value : α}

theorem Onward.refl (c : Context host) : c.Onward c :=
  ⟨fun _ member => member, fun _ _ => rfl, rfl⟩

theorem Onward.trans (first : c.Onward c₁) (second : c₁.Onward c') : c.Onward c' := by
  refine ⟨fun s member => second.held s (first.held s member), fun s member => ?_,
    second.keywords.trans first.keywords⟩
  exact (second.name s (first.held s member)).trans (first.name s member)

theorem Keyed.onward (keyed : c.Keyed t) (onward : c.Onward c') : c'.Keyed t := by
  intro entry member
  obtain ⟨held, hash⟩ := keyed entry member
  exact ⟨onward.held _ held, by rw [hash, onward.name _ held]⟩

/-- What a table reads as stays the same. -/
theorem Keyed.named_onward (keyed : c.Keyed t) (onward : c.Onward c') : c'.named t = c.named t := by
  refine List.map_congr_left fun entry member => ?_
  rw [onward.name _ (keyed entry member).1]

/-! ### Asking for a text -/

theorem symbol?_held (found : c.symbol? text = some s) : s ∈ c.held ∧ c.name s = text := by
  obtain ⟨entry, first, rfl⟩ := Option.map_eq_some_iff.mp found
  obtain ⟨member, -, passes⟩ := SymbolTable.entry?_eq_some first
  exact ⟨List.mem_map_of_mem member, of_decide_eq_true passes⟩

/-- A text is found if it is held, for it is hashed as its symbol was. -/
theorem Faithful.found (faithful : c.Faithful) (held : s ∈ c.held) : c.symbol? (c.name s) = some s := by
  obtain ⟨entry, member, rfl⟩ := List.mem_map.mp held
  have known : (c.known.entry? (host.hash (c.name entry.key)) (c.name · = c.name entry.key)).isSome :=
    SymbolTable.entry?_isSome member (faithful.known entry member).2 (decide_eq_true rfl)
  obtain ⟨other, found⟩ := Option.isSome_iff_exists.mp known
  have found : c.symbol? (c.name entry.key) = some other.key := by rw [symbol?, found, Option.map_some]
  obtain ⟨own, same⟩ := symbol?_held found
  rw [found, faithful.unique _ own _ held same]

/-- A context that is asked for a text gives a symbol of it and stays faithful. -/
structure Gives (c : Context host) (text : String) (s : Symbol) (c' : Context host) : Prop where
  faithful : c'.Faithful
  onward : c.Onward c'
  held : s ∈ c'.held
  name : c'.name s = text

/-- A new text is put where no text is held, so that all symbols keep their texts. -/
theorem Faithful.allot (faithful : c.Faithful) (absent : c.symbol? text = none) (fresh : s ∉ c.held)
    (made : c' = ⟨c.texts.put s text, c.known ++ [⟨host.hash text, s, ()⟩], c.keywords⟩) : c.Gives text s c' := by
  have held : c'.held = c.held ++ [s] := by rw [made]; exact List.map_append
  have name : c'.name s = text := by simp [made, Context.name]
  have kept (t : Symbol) (member : t ∈ c.held) : c'.name t = c.name t := by
    have other : t ≠ s := fun same => fresh (same ▸ member)
    simp [made, Context.name, Table.get?_put_of_ne other]
  have onward : c.Onward c' := ⟨fun t member => held ▸ List.mem_append_left _ member, kept, by rw [made]⟩
  have own : s ∈ c'.held := held ▸ List.mem_append_right _ (List.mem_singleton_self s)
  -- The new text is none of those that are held.
  have apart (t : Symbol) (member : t ∈ c.held) : c'.name t ≠ text := by
    intro same
    rw [← same, kept t member, faithful.found member] at absent
    cases absent
  refine ⟨⟨fun t inT u inU same => ?_, ?_, ?_⟩, onward, own, name⟩
  · rw [held] at inT inU
    rcases List.mem_append.mp inT with oldT | newT <;> rcases List.mem_append.mp inU with oldU | newU
    · exact faithful.unique t oldT u oldU (by rw [← kept t oldT, ← kept u oldU, same])
    · rw [List.mem_singleton.mp newU, name] at same
      exact absurd same (apart t oldT)
    · rw [List.mem_singleton.mp newT, name] at same
      exact absurd same.symm (apart u oldU)
    · rw [List.mem_singleton.mp newT, List.mem_singleton.mp newU]
  · have known : c'.known = c.known ++ [⟨host.hash text, s, ()⟩] := by rw [made]
    rw [known]
    refine List.forall_mem_append.mpr ⟨faithful.known.onward onward, List.forall_mem_singleton.mpr ⟨own, ?_⟩⟩
    rw [name]
  · rw [onward.keywords]
    exact faithful.keywords.onward onward

theorem Faithful.intern (faithful : c.Faithful) (text : String) : c.Gives text (c.intern text).1 (c.intern text).2 := by
  cases asked : c.symbol? text with
  | some s =>
    have same : c.intern text = (s, c) := by simp only [Context.intern, asked]
    obtain ⟨held, name⟩ := symbol?_held asked
    rw [same]
    exact ⟨faithful, .refl c, held, name⟩
  | none =>
    have unheld (entry : SymbolEntry Unit) (member : entry ∈ c.known) : entry.key ≠ host.place c.held :=
      fun same => host.unheld c.held (same ▸ List.mem_map_of_mem member)
    have name : (c.allot text).2.name (c.allot text).1 = text := by simp [Context.allot, Context.name]
    have known : (c.allot text).2.put c.known (c.allot text).1 () =
        c.known ++ [⟨host.hash text, (c.allot text).1, ()⟩] := by
      rw [Context.put, name]
      exact SymbolTable.put_fresh unheld
    refine faithful.allot asked (s := (c.intern text).1) ?_ ?_
    · simp only [Context.intern, asked]
      exact host.unheld c.held
    · simp only [Context.intern, asked]
      exact congrArg (fun known => Context.mk _ known _) known

/-! ### Tables by symbol are tables by text -/

/-- Of the entries of a table the one of a symbol is that of its text. -/
theorem Keyed.matches (keyed : c.Keyed t) (faithful : c.Faithful) (held : s ∈ c.held) {entry : SymbolEntry α}
    (member : entry ∈ t) :
    (entry.hash = host.hash (c.name s) && entry.key = s) = decide (c.name entry.key = c.name s) := by
  obtain ⟨own, hash⟩ := keyed entry member
  by_cases same : entry.key = s
  · simp [hash, same]
  · have other : c.name entry.key ≠ c.name s := fun name => same (faithful.unique _ own _ held name)
    simp [same, other]

theorem get?_named (faithful : c.Faithful) (keyed : c.Keyed t) (held : s ∈ c.held) :
    (c.named t).get? (c.name s) = c.get? t s := by
  unfold Context.get? SymbolTable.entry?
  induction t with
  | nil => rfl
  | cons entry rest ih =>
    have here := keyed.matches faithful held List.mem_cons_self
    rw [List.find?_cons, here]
    by_cases same : c.name entry.key = c.name s
    · simp [named, Table.get?, same]
    · simpa [named, Table.get?, same] using ih fun other member => keyed other (List.mem_cons_of_mem _ member)

theorem named_put (faithful : c.Faithful) (keyed : c.Keyed t) (held : s ∈ c.held) (value : α) :
    c.named (c.put t s value) = (c.named t).put (c.name s) value := by
  unfold Context.put
  induction t with
  | nil => rfl
  | cons entry rest ih =>
    have here := keyed.matches faithful held List.mem_cons_self
    rw [SymbolTable.put, here]
    by_cases same : c.name entry.key = c.name s
    · simp [named, Table.put, same]
    · simpa [named, Table.put, same] using ih fun other member => keyed other (List.mem_cons_of_mem _ member)

theorem Keyed.put (keyed : c.Keyed t) (held : s ∈ c.held) (value : α) : c.Keyed (c.put t s value) := by
  unfold Context.put
  induction t with
  | nil =>
    intro entry member
    obtain rfl := List.mem_singleton.mp member
    exact ⟨held, rfl⟩
  | cons entry rest ih =>
    obtain ⟨first, keyed⟩ := List.forall_mem_cons.mp keyed
    rw [SymbolTable.put]
    split
    · exact List.forall_mem_cons.mpr ⟨first, keyed⟩
    · exact List.forall_mem_cons.mpr ⟨first, ih keyed⟩

/-! ### Keywords -/

theorem faithful_empty : (empty : Context host).Faithful := by
  refine ⟨?_, ?_, ?_⟩ <;> simp [empty, Context.held, Keyed]

theorem addKeyword_faithful (faithful : c.Faithful) (k : Keyword) :
    (c.addKeyword k).Faithful ∧
      (c.addKeyword k).named (c.addKeyword k).keywords = (c.named c.keywords).put k.spelling (.keyword k) := by
  have gives := faithful.intern k.spelling
  have keyed : (c.intern k.spelling).2.Keyed (c.intern k.spelling).2.keywords := gives.faithful.keywords
  refine ⟨⟨gives.faithful.unique, gives.faithful.known, keyed.put gives.held _⟩, ?_⟩
  refine (named_put gives.faithful keyed gives.held _).trans ?_
  rw [gives.name, gives.onward.keywords, faithful.keywords.named_onward gives.onward]

theorem foldl_addKeyword (faithful : c.Faithful) (ks : List Keyword) :
    (ks.foldl addKeyword c).Faithful ∧
      (ks.foldl addKeyword c).named (ks.foldl addKeyword c).keywords =
        ks.foldl (fun words k => words.put k.spelling (.keyword k)) (c.named c.keywords) := by
  induction ks generalizing c with
  | nil => exact ⟨faithful, rfl⟩
  | cons k ks ih =>
    obtain ⟨faithful, words⟩ := addKeyword_faithful faithful k
    rw [List.foldl_cons, List.foldl_cons, ← words]
    exact ih faithful

theorem get?_spellings (ks : List Keyword) (word : String) :
    Table.get? word (ks.map fun k => (k.spelling, Token.keyword k)) =
      (ks.find? fun k => k.spelling = word).map .keyword := by
  induction ks with
  | nil => rfl
  | cons k ks ih => by_cases same : k.spelling = word <;> simp [Table.get?, same, ih]

theorem put_spellings :
    Keyword.all.foldl (fun (words : Table String Token) k => words.put k.spelling (Token.keyword k)) [] =
      Keyword.all.map fun k => (k.spelling, Token.keyword k) := by
  decide +kernel

theorem start_faithful (host : Host) : (start host).Faithful :=
  (foldl_addKeyword faithful_empty Keyword.all).1

/-- A context that has come out of the first one knows the keywords by their spellings. -/
theorem keyword?_eq (faithful : c.Faithful) (onward : (start host).Onward c) (held : s ∈ c.held) :
    c.keyword? s = (Keyword.ofSpelling? (c.name s)).map .keyword := by
  have words : c.named c.keywords = Keyword.all.map fun k => (k.spelling, Token.keyword k) := by
    rw [onward.keywords, (start_faithful host).keywords.named_onward onward, start,
      (foldl_addKeyword faithful_empty Keyword.all).2]
    exact put_spellings
  rw [keyword?, ← get?_named faithful faithful.keywords held, words, get?_spellings]
  rfl

end Context

end Lox
