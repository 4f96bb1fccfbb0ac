import DeclAtlas.Path.Basic
import DeclAtlas.Syntax.Grammar.Module

/-!
# The registry of modules

Every module that has been read, under its key.  Modules read from files and ambient modules
declared in typings share one set of keys.  The registry only grows: a key that is taken stays
with the first module registered under it, and modules are kept in the order in which they
came.
-/

namespace DeclAtlas

/-- A module read from a file. -/
structure SourceUnit where
  /-- The module path that the file is known under. -/
  path : String
  statements : List Statement
deriving Repr

namespace SourceUnit

/-- Reads a text as the module with the given path. -/
def ofText (path text : String) : SourceUnit := ⟨path, parse text⟩

def imports (s : SourceUnit) : List Import := s.statements.filterMap Statement.import?

def exports (s : SourceUnit) : List Export := s.statements.filterMap Statement.export?

def namespaces (s : SourceUnit) : List NamespaceDecl :=
  s.statements.filterMap Statement.namespace?

end SourceUnit

/-- What a module path may stand for. -/
inductive ModuleUnit
  | source (s : SourceUnit)
  /-- A namespace or module declared at the top of a typings text. -/
  | ambient (n : NamespaceDecl)
deriving Repr

namespace ModuleUnit

/-- The key that a unit is registered under. -/
def key : ModuleUnit → String
  | source s => s.path
  | ambient n => n.name

/-- The label of a unit's kind in reports. -/
def kind : ModuleUnit → String
  | source _ => "source"
  | ambient _ => "ambient"

/-- The module read from a file, if a unit is one. -/
def source? : ModuleUnit → Option SourceUnit
  | source s => some s
  | ambient _ => none

/-- The statements directly in a unit. -/
def statements : ModuleUnit → List Statement
  | source s => s.statements
  | ambient n =>
    match n.body with
    | .block ss => ss
    | _ => []

/-- The classes and interfaces declared directly in a unit. -/
def declarations (u : ModuleUnit) : List Declaration :=
  u.statements.filterMap Statement.declaration?

/-- The first class or interface of this name declared directly in a unit. -/
def declaration? (u : ModuleUnit) (name : String) : Option Declaration :=
  findDeclaration? u.statements name

end ModuleUnit

/-- The modules read so far, each under its key, in the order of their registration. -/
structure Registry where
  entries : List (String × ModuleUnit)
deriving Repr

namespace Registry

/-- The registry without modules. -/
def empty : Registry := ⟨[]⟩

/-- The registered keys, in order. -/
def keys (r : Registry) : List String := r.entries.map Prod.fst

/-- The registered units, in order. -/
def units (r : Registry) : List ModuleUnit := r.entries.map Prod.snd

/-- The unit registered under exactly this key. -/
def find? (r : Registry) (key : String) : Option ModuleUnit := r.entries.lookup key

/-- The key of the index module of a directory. -/
def indexKey (module : String) : String := module ++ "/index"

/-- The unit that a module path stands for: the one under this key or, if there is none, the
    index module of the directory of this name. -/
def lookup (r : Registry) (module : String) : Option ModuleUnit :=
  r.find? module <|> r.find? (indexKey module)

/-- Puts a unit behind all others. -/
def push (r : Registry) (key : String) (u : ModuleUnit) : Registry := ⟨r.entries ++ [(key, u)]⟩

/-- Stores a unit under a key: in the place of the unit that is there or, if the key is new,
    behind all others.  Whoever wants to keep what is there has to ask first. -/
def store (r : Registry) (key : String) (u : ModuleUnit) : Registry :=
  if key ∈ r.keys then ⟨r.entries.map fun e => if e.1 = key then (key, u) else e⟩
  else r.push key u

/-- Registers a source module, unless its path is empty or already stands for a unit.  Says
    whether it was registered. -/
def insert (r : Registry) (s : SourceUnit) : Bool × Registry :=
  if s.path = "" ∨ (r.lookup s.path).isSome then (false, r)
  else
    let r' := r.store s.path (.source s)
    ((r'.find? s.path).isSome, r')

/-- Reads a file's text and registers it under the module path of the file, unless the file's
    path is empty or its module path already stands for a unit.  Gives the new module as it is
    registered. -/
def addSource (r : Registry) (file text : String) : Option SourceUnit × Registry :=
  let key := ModulePath.ofFile file
  if file = "" ∨ (r.lookup key).isSome then (none, r)
  else
    let r' := r.store key (.source (.ofText key text))
    ((r'.find? key).bind ModuleUnit.source?, r')

/-- The name of an ambient module without quotes of any kind. -/
def unquoted (name : String) : String :=
  String.ofList (name.toList.filter fun c => c ≠ '\'' ∧ c ≠ '"' ∧ c ≠ '\x60')

/-- Registers an ambient module under its name without quotes, unless this key is taken.  Gives
    how many were registered. -/
def addAmbient (r : Registry) (n : NamespaceDecl) : Nat × Registry :=
  let n := { n with name := unquoted n.name }
  if n.name ∈ r.keys then (0, r)
  else
    let r' := r.store n.name (.ambient n)
    (if (r'.find? n.name).isSome then 1 else 0, r')

/-- Registers every namespace and module declared at the top of a typings text.  Gives how many
    were registered. -/
def addTypings (r : Registry) (text : String) : Nat × Registry :=
  ((parse text).filterMap Statement.namespace?).foldl
    (fun (count, r) n =>
      let (added, r) := r.addAmbient n
      (count + added, r))
    (0, r)

-- ── What is found, and what a call can do ────────────────────────────────────────

variable {r : Registry} {key module : String} {u : ModuleUnit}

/-- The keys are the paths under which something is found. -/
theorem mem_keys_iff : key ∈ r.keys ↔ (r.find? key).isSome := by
  rw [keys, find?, List.lookup_isSome_iff, List.mem_map]
  constructor
  · rintro ⟨e, he, hk⟩
    exact ⟨e, he, by simp [hk]⟩
  · rintro ⟨e, he, hk⟩
    exact ⟨e, he, (beq_iff_eq.mp hk).symm⟩

theorem find?_eq_none_iff : r.find? key = none ↔ key ∉ r.keys := by
  rw [mem_keys_iff, Bool.not_eq_true, Option.isSome_eq_false_iff, Option.isNone_iff_eq_none]

/-- What is found under a key is an entry with this key. -/
theorem mem_entries_of_find? (h : r.find? key = some u) : (key, u) ∈ r.entries := by
  obtain ⟨before, after, heq, -⟩ := List.lookup_eq_some_iff.mp h
  rw [heq]
  simp

/-- A path stands for what has it as a key or, failing that, for the index of the directory. -/
theorem lookup_eq_some_iff :
    r.lookup module = some u ↔
      r.find? module = some u ∨ (r.find? module = none ∧ r.find? (indexKey module) = some u) := by
  unfold lookup
  cases r.find? module with
  | none => simp
  | some v => simp

/-- A path stands for nothing if neither key is taken. -/
theorem lookup_eq_none_iff :
    r.lookup module = none ↔ r.find? module = none ∧ r.find? (indexKey module) = none := by
  unfold lookup
  cases r.find? module with
  | none => simp
  | some v => simp

theorem mem_units_of_lookup (h : r.lookup module = some u) : u ∈ r.units := by
  rcases lookup_eq_some_iff.mp h with hf | ⟨-, hf⟩
  · exact List.mem_map.mpr ⟨_, mem_entries_of_find? hf, rfl⟩
  · exact List.mem_map.mpr ⟨_, mem_entries_of_find? hf, rfl⟩

/-- What looks up to nothing is no key. -/
theorem not_mem_keys_of_lookup (h : r.lookup module = none) : module ∉ r.keys :=
  find?_eq_none_iff.mp (lookup_eq_none_iff.mp h).1

/-- A new entry comes last. -/
@[simp] theorem keys_push : (r.push key u).keys = r.keys ++ [key] := by
  simp [keys, push]

theorem find?_push_of_not_mem (h : key ∉ r.keys) : (r.push key u).find? key = some u := by
  show List.lookup key (r.entries ++ [(key, u)]) = some u
  rw [List.lookup_append, show List.lookup key r.entries = none from find?_eq_none_iff.mpr h]
  simp

/-- Under all other keys there is what there was. -/
theorem find?_push_of_ne (h : key ≠ module) : (r.push key u).find? module = r.find? module := by
  show List.lookup module (r.entries ++ [(key, u)]) = r.find? module
  have hb : (module == key) = false := beq_eq_false_iff_ne.mpr h.symm
  rw [List.lookup_append, List.lookup_cons, hb]
  exact Option.or_none

theorem store_of_not_mem (h : key ∉ r.keys) : r.store key u = r.push key u := if_neg h

/-- Registering a source module changes nothing or puts it behind all others. -/
theorem insert_cases (r : Registry) (s : SourceUnit) :
    ((s.path = "" ∨ (r.lookup s.path).isSome) ∧ r.insert s = (false, r)) ∨
    (s.path ≠ "" ∧ r.lookup s.path = none ∧
      r.insert s = (true, r.push s.path (.source s))) := by
  unfold insert
  by_cases h : s.path = "" ∨ (r.lookup s.path).isSome
  · exact Or.inl ⟨h, if_pos h⟩
  · right
    rw [if_neg h]
    obtain ⟨hne, hl⟩ := not_or.mp h
    have hl : r.lookup s.path = none := by simpa using hl
    have hk := not_mem_keys_of_lookup hl
    refine ⟨hne, hl, ?_⟩
    dsimp only
    rw [store_of_not_mem hk, find?_push_of_not_mem hk]
    rfl

/-- Reading a file changes nothing or puts its module behind all others. -/
theorem addSource_cases (r : Registry) (file text : String) :
    ((file = "" ∨ (r.lookup (ModulePath.ofFile file)).isSome) ∧
      r.addSource file text = (none, r)) ∨
    (file ≠ "" ∧ r.lookup (ModulePath.ofFile file) = none ∧
      r.addSource file text =
        (some (.ofText (ModulePath.ofFile file) text),
          r.push (ModulePath.ofFile file)
            (.source (.ofText (ModulePath.ofFile file) text)))) := by
  unfold addSource
  by_cases h : file = "" ∨ (r.lookup (ModulePath.ofFile file)).isSome
  · exact Or.inl ⟨h, if_pos h⟩
  · right
    obtain ⟨hne, hl⟩ := not_or.mp h
    have hl : r.lookup (ModulePath.ofFile file) = none := by simpa using hl
    have hk := not_mem_keys_of_lookup hl
    refine ⟨hne, hl, ?_⟩
    dsimp only
    rw [if_neg h, store_of_not_mem hk, find?_push_of_not_mem hk]
    rfl

/-- Registering an ambient module changes nothing or puts it behind all others. -/
theorem addAmbient_cases (r : Registry) (n : NamespaceDecl) :
    (unquoted n.name ∈ r.keys ∧ r.addAmbient n = (0, r)) ∨
    (unquoted n.name ∉ r.keys ∧
      r.addAmbient n =
        (1, r.push (unquoted n.name) (.ambient { n with name := unquoted n.name }))) := by
  unfold addAmbient
  by_cases h : unquoted n.name ∈ r.keys
  · exact Or.inl ⟨h, if_pos h⟩
  · refine Or.inr ⟨h, ?_⟩
    dsimp only
    rw [if_neg h, store_of_not_mem h, find?_push_of_not_mem h]
    rfl

end Registry

end DeclAtlas
