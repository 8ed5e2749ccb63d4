import Lox.Proofs.Symbols.Keyed

/-!
Programs on names. A program asks for texts and works with the names that it is given for them: it compares and spells
them, declares and refers to them in scopes, and keeps values under them in frames, classes and instances. The names
are symbols of a context, or else the texts themselves. The program cannot know which of the two, for it is told the
same.
-/

namespace Lox

/-! ### Programs -/

/-- What can be done with a name. -/
inductive Usage
  | spell
  | keyword
  | declare (line : Nat)
  | define
  | refer (id : Nat)
  | read (id line : Nat)
  | bind (frame : Ref .frame) (value : Value)
  | lookup (distances : Distances) (frame : Ref .frame) (id : Nat)
  | assign (distances : Distances) (frame : Ref .frame) (id : Nat) (value : Value)
  | method (classRef : Ref .classObject)
  | field (receiver : Ref .instance)
  | setField (receiver : Ref .instance) (value : Value)

/-- A step of a program, in which a name goes by the number of names that were asked for before it. -/
inductive Action
  | request (text : String)
  /-- Asks for a word and for the token that it is. -/
  | scan (word : String)
  | same (i j : Nat)
  | use (i : Nat) (usage : Usage)
  | startWalk
  | openScope
  | closeScope
  | findings
  | addFrame (parent : Ref .frame)
  | addClass (i : Nat) (superclass? : Option (Ref .classObject)) (methods : List (Nat × Closure))
  | addInstance (classRef : Ref .classObject)

/-- What a program is told. -/
inductive Response
  | done
  | flag (holds : Bool)
  | text (text : String)
  | token (token? : Option Token)
  | value (value? : Option Value)
  | method (method? : Option Closure)
  | frame (made : Ref .frame)
  | findings (distances : Distances) (diagnostics : List Diagnostic)

/-- A program goes by what it was told so far. -/
abbrev Program : Type :=
  List Response → Action

/-- The program that takes some steps, whatever it is told. -/
def Program.taking (actions : List Action) : Program :=
  fun told => actions.getD told.length .findings

/-! ### Names that are texts -/

/-- What a program works on whose names are texts. -/
structure TextStore where
  /-- The texts that were asked for. -/
  given : List String
  resolution : Resolution
  heap : Heap

namespace TextStore

/-- Nothing but the global frame. -/
def start : TextStore :=
  ⟨[], .start, ⟨#[⟨none, []⟩], #[], #[], #[], #[]⟩⟩

variable (st : TextStore)

def use (name : String) : Usage → Response × TextStore
  | .spell => (.text name, st)
  | .keyword => (.token ((Keyword.ofSpelling? name).map .keyword), st)
  | .declare line => (.done, { st with resolution := st.resolution.declare name line })
  | .define => (.done, { st with resolution := st.resolution.define name })
  | .refer id => (.done, { st with resolution := st.resolution.refer id name })
  | .read id line => (.done, { st with resolution := st.resolution.read ⟨id, name, line⟩ })
  | .bind frame value => (.done, { st with heap := st.heap.bind frame name value })
  | .lookup distances frame id => (.value (st.heap.lookup? distances frame id name), st)
  | .assign distances frame id value =>
    match (st.heap.target? distances frame id).filter fun r => (st.heap.binding? r name).isSome with
    | some target => (.flag true, { st with heap := st.heap.bind target name value })
    | none => (.flag false, st)
  | .method classRef => (.method (st.heap.method? classRef name), st)
  | .field receiver => (.value ((st.heap.instance? receiver).bind (·.fields.get? name)), st)
  | .setField receiver value => (.done, { st with heap := st.heap.setField receiver name value })

/-- The methods of a class, whose names were asked for. -/
def methods (named : List (Nat × Closure)) : List (String × Closure) :=
  named.filterMap fun m => (st.given[m.1]?).map (·, m.2)

def step : Action → Response × TextStore
  | .request text => (.done, { st with given := st.given ++ [text] })
  | .scan word => (.token (some (.ofWord word)), { st with given := st.given ++ [word] })
  | .same i j => (.flag (st.given[i]? = st.given[j]?), st)
  | .use i usage =>
    match st.given[i]? with
    | some name => st.use name usage
    | none => (.done, st)
  | .startWalk => (.done, { st with resolution := .start })
  | .openScope => (.done, { st with resolution := st.resolution.openScope })
  | .closeScope => (.done, { st with resolution := st.resolution.closeScope })
  | .findings => (.findings st.resolution.distances st.resolution.diagnostics, st)
  | .addFrame parent =>
    let (made, heap) := st.heap.addFrame parent
    (.frame made, { st with heap })
  | .addClass i superclass? methods =>
    match st.given[i]? with
    | some name =>
      let (made, heap) := st.heap.addClass ⟨name, superclass?, Table.merge [] (st.methods methods)⟩
      (.value (some (.classObject made)), { st with heap })
    | none => (.done, st)
  | .addInstance classRef =>
    let (made, heap) := st.heap.addInstance classRef
    (.value (some (.instance made)), { st with heap })

end TextStore

/-- The first steps of a program whose names are texts: all that it was told, and what it then works on. -/
def Program.onTexts (program : Program) : Nat → List Response × TextStore
  | 0 => ([], .start)
  | n + 1 =>
    let (responses, st) := program.onTexts n
    let (response, next) := st.step (program responses)
    (responses ++ [response], next)

/-- A session starts by binding the native functions to their names. -/
example :
    let bind (i : Nat) (f : Native) : Action := .use i (.bind Heap.globals (.native f))
    let program := Program.taking [.request "len", bind 0 .len, .request "push", bind 1 .push]
    (program.onTexts 4).2.heap = Heap.start :=
  rfl

/-! ### Names that are symbols -/

variable {host : Host}

/-- What a program works on whose names are symbols. -/
structure SymbolStore (host : Host) where
  context : Context host
  /-- The symbols of the texts that were asked for. -/
  given : List Symbol
  resolution : SymbolResolution
  heap : SymbolHeap

namespace SymbolStore

def start (host : Host) : SymbolStore host :=
  ⟨.start host, [], .start, ⟨#[⟨none, []⟩], #[], #[]⟩⟩

variable (st : SymbolStore host)

/-- What is read if each symbol is taken for its text. -/
def named : TextStore :=
  ⟨st.given.map st.context.name, st.resolution.named st.context, st.heap.named st.context⟩

def request (text : String) : Symbol × SymbolStore host :=
  let (s, context) := st.context.intern text
  (s, { st with context, given := st.given ++ [s] })

def use (s : Symbol) : Usage → Response × SymbolStore host
  | .spell => (.text (st.context.name s), st)
  | .keyword => (.token (st.context.keyword? s), st)
  | .declare line => (.done, { st with resolution := st.resolution.declare st.context s line })
  | .define => (.done, { st with resolution := st.resolution.define st.context s })
  | .refer id => (.done, { st with resolution := st.resolution.refer st.context id s })
  | .read id line => (.done, { st with resolution := st.resolution.read st.context id s line })
  | .bind frame value => (.done, { st with heap := st.heap.bind st.context frame s value })
  | .lookup distances frame id => (.value (st.heap.lookup? st.context distances frame id s), st)
  | .assign distances frame id value =>
    match st.heap.assigned? st.context distances frame id s with
    | some target => (.flag true, { st with heap := st.heap.bind st.context target s value })
    | none => (.flag false, st)
  | .method classRef => (.method (st.heap.method? st.context classRef s), st)
  | .field receiver => (.value (st.heap.field? st.context receiver s), st)
  | .setField receiver value => (.done, { st with heap := st.heap.setField st.context receiver s value })

def methods (named : List (Nat × Closure)) : List (Symbol × Closure) :=
  named.filterMap fun m => (st.given[m.1]?).map (·, m.2)

def step : Action → Response × SymbolStore host
  | .request text => (.done, (st.request text).2)
  | .scan word =>
    let (s, next) := st.request word
    (.token (some ((next.context.keyword? s).getD (.identifier (next.context.name s)))), next)
  | .same i j => (.flag (st.given[i]? = st.given[j]?), st)
  | .use i usage =>
    match st.given[i]? with
    | some s => st.use s usage
    | none => (.done, st)
  | .startWalk => (.done, { st with resolution := .start })
  | .openScope => (.done, { st with resolution := st.resolution.openScope })
  | .closeScope => (.done, { st with resolution := st.resolution.closeScope })
  | .findings => (.findings st.resolution.distances st.resolution.diagnostics, st)
  | .addFrame parent =>
    let (made, heap) := st.heap.addFrame parent
    (.frame made, { st with heap })
  | .addClass i superclass? methods =>
    match st.given[i]? with
    | some s =>
      let (made, heap) := st.heap.addClass st.context s superclass? (st.methods methods)
      (.value (some (.classObject made)), { st with heap })
    | none => (.done, st)
  | .addInstance classRef =>
    let (made, heap) := st.heap.addInstance classRef
    (.value (some (.instance made)), { st with heap })

end SymbolStore

/-- The first steps of a program whose names are symbols. -/
def Program.onSymbols (host : Host) (program : Program) : Nat → List Response × SymbolStore host
  | 0 => ([], .start host)
  | n + 1 =>
    let (responses, st) := program.onSymbols host n
    let (response, next) := st.step (program responses)
    (responses ++ [response], next)

namespace SymbolStore

/-! ### One step -/

/-- The context is a faithful one that knows the keywords, and holds all symbols that are in use. -/
structure Sound (st : SymbolStore host) : Prop where
  faithful : st.context.Faithful
  keywords : (Context.start host).Onward st.context
  given : ∀ s ∈ st.given, s ∈ st.context.held
  resolution : st.resolution.Keyed st.context
  heap : st.heap.Keyed st.context

/-- A step goes as one on texts does, and keeps the symbols that were given and their texts. -/
structure Follows (st : SymbolStore host) (result : Response × SymbolStore host) (onTexts : Response × TextStore) :
    Prop where
  sound : result.2.Sound
  onward : st.context.Onward result.2.context
  given : st.given <+: result.2.given
  response : result.1 = onTexts.1
  named : result.2.named = onTexts.2

theorem given?_named (st : SymbolStore host) (i : Nat) :
    st.named.given[i]? = (st.given[i]?).map st.context.name :=
  List.getElem?_map

variable {st : SymbolStore host} {s : Symbol} {response response' : Response}

namespace Sound

theorem start (host : Host) : (start host).Sound := by
  refine ⟨Context.start_faithful host, .refl _, ?_, ?_, ⟨?_, ?_, ?_⟩⟩ <;>
    simp [SymbolStore.start, SymbolResolution.start, SymbolResolution.Keyed, Context.Keyed]

variable (sound : st.Sound)
include sound

theorem held {i : Nat} (found : st.given[i]? = some s) : s ∈ st.context.held :=
  sound.given s (List.mem_of_getElem? found)

/-- Symbols are the same exactly if their texts are. -/
theorem same_iff (i j : Nat) :
    st.given[i]? = st.given[j]? ↔ st.named.given[i]? = st.named.given[j]? := by
  rw [given?_named, given?_named]
  refine ⟨congrArg _, fun same => ?_⟩
  cases first : st.given[i]? with
  | none =>
    rw [first, Option.map_none] at same
    exact (Option.map_eq_none_iff.mp same.symm).symm
  | some s =>
    rw [first, Option.map_some] at same
    obtain ⟨t, second, name⟩ := Option.map_eq_some_iff.mp same.symm
    rw [second, sound.faithful.unique s (sound.held first) t (sound.held second) name.symm]

theorem keyword?_eq (held : s ∈ st.context.held) :
    st.context.keyword? s = (Keyword.ofSpelling? (st.context.name s)).map .keyword :=
  Context.keyword?_eq sound.faithful sound.keywords held

/-- A step that only tells something. -/
theorem tells (same : response = response') : st.Follows (response, st) (response', st.named) :=
  ⟨sound, .refl _, List.prefix_refl _, same, rfl⟩

theorem setResolution {r : SymbolResolution} {r' : Resolution} (keyed : r.Keyed st.context)
    (named : r.named st.context = r') :
    st.Follows (response, { st with resolution := r }) (response, { st.named with resolution := r' }) :=
  ⟨{ sound with resolution := keyed }, .refl _, List.prefix_refl _, rfl, congrArg (TextStore.mk _ · _) named⟩

theorem setHeap {h : SymbolHeap} {h' : Heap} (keyed : h.Keyed st.context) (named : h.named st.context = h') :
    st.Follows (response, { st with heap := h }) (response, { st.named with heap := h' }) :=
  ⟨{ sound with heap := keyed }, .refl _, List.prefix_refl _, rfl, congrArg (TextStore.mk _ _) named⟩

/-- A step that makes an object, and tells which. -/
theorem makes {α : Type} {made : α × SymbolHeap} {made' : α × Heap} (tell : α → Response)
    (keyed : made.2.Keyed st.context) (named : made' = (made.1, made.2.named st.context)) :
    st.Follows (tell made.1, { st with heap := made.2 }) (tell made'.1, { st.named with heap := made'.2 }) := by
  rw [named]
  exact sound.setHeap keyed rfl

theorem use (held : s ∈ st.context.held) (usage : Usage) :
    st.Follows (st.use s usage) (st.named.use (st.context.name s) usage) := by
  have ⟨faithful, _, _, scopes, heap⟩ := sound
  cases usage with
  | spell => exact sound.tells rfl
  | keyword => exact sound.tells (congrArg Response.token (sound.keyword?_eq held))
  | declare line =>
    exact sound.setResolution (SymbolResolution.keyed_declare scopes held line)
      (SymbolResolution.named_declare faithful scopes held line)
  | define =>
    exact sound.setResolution (SymbolResolution.keyed_setName scopes held true)
      (SymbolResolution.named_setName faithful scopes held true)
  | refer id =>
    exact sound.setResolution (SymbolResolution.keyed_refer scopes id s)
      (SymbolResolution.named_refer faithful scopes held id)
  | read id line =>
    exact sound.setResolution (SymbolResolution.keyed_read scopes id s line)
      (SymbolResolution.named_read faithful scopes held id line)
  | bind frame value =>
    exact sound.setHeap (SymbolHeap.keyed_bind heap held frame value)
      (SymbolHeap.named_bind faithful heap held frame value)
  | lookup distances frame id =>
    exact sound.tells (congrArg Response.value (SymbolHeap.lookup?_named faithful heap held distances frame id).symm)
  | assign distances frame id value =>
    have assigned := SymbolHeap.assigned?_named faithful heap held distances frame id
    unfold SymbolStore.use TextStore.use
    dsimp only [named]
    rw [assigned]
    split
    · exact sound.setHeap (SymbolHeap.keyed_bind heap held _ value) (SymbolHeap.named_bind faithful heap held _ value)
    · exact sound.tells rfl
  | method classRef =>
    exact sound.tells (congrArg Response.method (SymbolHeap.method?_named faithful heap held classRef).symm)
  | field receiver =>
    exact sound.tells (congrArg Response.value (SymbolHeap.field?_named faithful heap held receiver).symm)
  | setField receiver value =>
    exact sound.setHeap (SymbolHeap.keyed_setField heap held receiver value)
      (SymbolHeap.named_setField faithful heap held receiver value)

/-- A text that is asked for gets a symbol, and all symbols keep their texts. -/
theorem request (response : Response) (text : String) :
    st.Follows (response, (st.request text).2) (response, { st.named with given := st.named.given ++ [text] }) ∧
      (st.request text).1 ∈ (st.request text).2.context.held ∧
      (st.request text).2.context.name (st.request text).1 = text := by
  have gives := sound.faithful.intern text
  obtain ⟨scopes, resolution⟩ := sound.resolution.onward gives.onward
  obtain ⟨objects, heap⟩ := sound.heap.onward gives.onward
  have given : st.given.map (st.context.intern text).2.name = st.given.map st.context.name :=
    List.map_congr_left fun s member => gives.onward.name s (sound.given s member)
  refine ⟨⟨⟨gives.faithful, sound.keywords.trans gives.onward, ?_, scopes, objects⟩, gives.onward,
    List.prefix_append _ _, rfl, ?_⟩, gives.held, gives.name⟩
  · refine List.forall_mem_append.mpr ⟨fun s member => gives.onward.held s (sound.given s member), ?_⟩
    exact List.forall_mem_singleton.mpr gives.held
  · simp only [named, SymbolStore.request, List.map_append, List.map_singleton, given, gives.name, resolution, heap]

theorem methods (named : List (Nat × Closure)) :
    (∀ m ∈ st.methods named, m.1 ∈ st.context.held) ∧
      st.named.methods named = (st.methods named).map fun m => (st.context.name m.1, m.2) := by
  refine ⟨fun m member => ?_, ?_⟩
  · obtain ⟨entry, -, found⟩ := List.mem_filterMap.mp member
    obtain ⟨s, given, rfl⟩ := Option.map_eq_some_iff.mp found
    exact sound.held given
  · rw [SymbolStore.methods, List.map_filterMap]
    refine congrArg (named.filterMap ·) (funext fun entry => ?_)
    rw [given?_named, Option.map_map, Option.map_map]
    rfl

theorem step (action : Action) : st.Follows (st.step action) (st.named.step action) := by
  cases action with
  | request text => exact (sound.request .done text).1
  | scan word =>
    obtain ⟨follows, held, name⟩ := sound.request (.token (some (.ofWord word))) word
    have keyword := follows.sound.keyword?_eq held
    have token : ((st.request word).2.context.keyword? (st.request word).1).getD
        (.identifier ((st.request word).2.context.name (st.request word).1)) = .ofWord word := by
      rw [keyword, name, Token.ofWord]
      cases Keyword.ofSpelling? word with
      | none => rfl
      | some k => rfl
    unfold SymbolStore.step
    dsimp only
    rw [token]
    exact follows
  | same i j =>
    exact sound.tells (congrArg Response.flag (decide_eq_decide.mpr (sound.same_iff i j)))
  | use i usage =>
    unfold SymbolStore.step TextStore.step
    dsimp only
    rw [given?_named]
    cases found : st.given[i]? with
    | none => exact sound.tells rfl
    | some s => exact sound.use (sound.held found) usage
  | startWalk => exact sound.setResolution (fun _ member => absurd member List.not_mem_nil) rfl
  | openScope => exact sound.setResolution (SymbolResolution.keyed_openScope sound.resolution) rfl
  | closeScope =>
    exact sound.setResolution (SymbolResolution.keyed_closeScope sound.resolution)
      (SymbolResolution.named_closeScope _ _)
  | findings => exact sound.tells rfl
  | addFrame parent =>
    exact sound.makes .frame (SymbolHeap.keyed_addFrame sound.heap parent) (SymbolHeap.named_addFrame _ _ parent)
  | addClass i superclass? methods =>
    obtain ⟨own, read⟩ := sound.methods methods
    unfold SymbolStore.step TextStore.step
    dsimp only
    rw [given?_named, read]
    cases found : st.given[i]? with
    | none => exact sound.tells rfl
    | some s =>
      exact sound.makes (.value <| some <| .classObject ·)
        (SymbolHeap.keyed_addClass sound.faithful sound.heap (sound.held found) superclass? own)
        (SymbolHeap.named_addClass sound.faithful superclass? own)
  | addInstance classRef =>
    exact sound.makes (.value <| some <| .instance ·) (SymbolHeap.keyed_addInstance sound.heap classRef)
      (SymbolHeap.named_addInstance _ _ classRef)

end Sound

/-! ### Whole runs -/

theorem named_start (host : Host) : (start host).named = .start := by
  simp [start, named, TextStore.start, SymbolResolution.named, SymbolResolution.start, Resolution.start,
    SymbolHeap.named, SymbolFrame.named, Context.named]

end SymbolStore

namespace Program

open SymbolStore

variable (program : Program) (n : Nat)

/-- A program on symbols is told what it is told on texts, and what it works on reads the same. -/
theorem onSymbols_sound (host : Host) :
    (program.onSymbols host n).2.Sound ∧
      (program.onSymbols host n).1 = (program.onTexts n).1 ∧
      (program.onSymbols host n).2.named = (program.onTexts n).2 := by
  induction n with
  | zero => exact ⟨.start host, rfl, named_start host⟩
  | succ n ih =>
    obtain ⟨sound, told, named⟩ := ih
    have follows := sound.step (program (program.onSymbols host n).1)
    rw [named, told] at follows
    simp only [onSymbols, onTexts, told]
    exact ⟨follows.sound, congrArg ((program.onTexts n).1 ++ [·]) follows.response, follows.named⟩

/-- Later steps keep the symbols that were given, and their texts. -/
theorem onSymbols_later (host : Host) (more : Nat) :
    (program.onSymbols host n).2.context.Onward (program.onSymbols host (n + more)).2.context ∧
      (program.onSymbols host n).2.given <+: (program.onSymbols host (n + more)).2.given := by
  induction more with
  | zero => exact ⟨.refl _, List.prefix_refl _⟩
  | succ more ih =>
    obtain ⟨onward, given⟩ := ih
    have follows := (program.onSymbols_sound (n + more) host).1.step (program (program.onSymbols host (n + more)).1)
    exact ⟨onward.trans follows.onward, given.trans follows.given⟩

end Program

/-- Two symbols that a program was given are the same exactly if it asked for the same text. From then on a symbol
spells that text, and is a keyword exactly if the text is one. Whatever the program does with symbols, in whichever
order, it is told what it would be told on texts, and all that is kept by symbol reads as it would be kept by text. -/
theorem interning_faithful (host : Host) (program : Program) (n more : Nat) :
    let symbols := (program.onSymbols host n).2
    let later := (program.onSymbols host (n + more)).2
    let texts := (program.onTexts n).2
    (∀ i j : Nat, symbols.given[i]? = symbols.given[j]? ↔ texts.given[i]? = texts.given[j]?) ∧
      symbols.given <+: later.given ∧
      (∀ i : Nat, (symbols.given[i]?).map later.context.name = texts.given[i]?) ∧
      (∀ i : Nat, (symbols.given[i]?).bind later.context.keyword? =
        (texts.given[i]?).bind fun text => (Keyword.ofSpelling? text).map .keyword) ∧
      (program.onSymbols host n).1 = (program.onTexts n).1 ∧ symbols.named = texts := by
  intro symbols later texts
  obtain ⟨sound, told, named⟩ := program.onSymbols_sound n host
  obtain ⟨onward, given⟩ := program.onSymbols_later n host more
  have read : texts = symbols.named := named.symm
  have spelled (i : Nat) : (symbols.given[i]?).map later.context.name = texts.given[i]? := by
    rw [read, SymbolStore.given?_named]
    exact Option.map_congr fun s found => onward.name s (sound.held found)
  refine ⟨fun i j => ?_, given, spelled, fun i => ?_, told, named⟩
  · rw [read]
    exact sound.same_iff i j
  · rw [← spelled, Option.bind_map]
    refine Option.bind_congr fun s found => ?_
    exact (program.onSymbols_sound (n + more) host).1.keyword?_eq (onward.held s (sound.held found))

/-- Texts of one hash get symbols of their own, and a keyword has the one that the context has for it. -/
example :
    let program := Program.taking [.scan "foo", .scan "bar", .scan "for", .scan "foo"]
    (program.onSymbols .counting 4).2.given = [⟨19⟩, ⟨20⟩, ⟨7⟩, ⟨19⟩] := by
  decide +kernel

end Lox
