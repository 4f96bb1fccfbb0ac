import DeclAtlas.FileTree.Basic
import DeclAtlas.Glob.Basic
import DeclAtlas.Module.Resolution
import DeclAtlas.Pattern.Program

/-!
# An atlas of declarations

A registry together with the path mappings under which it is asked.  Modules are added first;
questions do not change an atlas.
-/

namespace DeclAtlas

/-- Compiles mappings.  The first bad pattern is the problem. -/
def PathMapping.ofRules (rules : List MappingRule) : Except Problem (List PathMapping) :=
  rules.mapM fun rule => (PathMapping.ofRule rule).mapError fun _ => .badMapping rule.pattern

/-- Modules and mappings. -/
structure Atlas where
  registry : Registry
  mappings : List PathMapping

namespace Atlas

/-- The atlas without modules, under some mappings. -/
def empty (mappings : List PathMapping) : Atlas := ⟨.empty, mappings⟩

-- ── Adding modules and mappings ──────────────────────────────────────────────────

/-- Reads a file's text as a module. -/
def addSource (a : Atlas) (file text : String) : Option SourceUnit × Atlas :=
  let (unit, registry) := a.registry.addSource file text
  (unit, { a with registry })

/-- Registers a module that has been read. -/
def insert (a : Atlas) (s : SourceUnit) : Bool × Atlas :=
  let (added, registry) := a.registry.insert s
  (added, { a with registry })

/-- Reads a text of ambient modules. -/
def addTypings (a : Atlas) (text : String) : Nat × Atlas :=
  let (added, registry) := a.registry.addTypings text
  (added, { a with registry })

/-- Puts a mapping behind all others. -/
def addMapping (a : Atlas) (rule : MappingRule) : Except Problem Atlas := do
  let ms ← PathMapping.ofRules [rule]
  pure { a with mappings := a.mappings ++ ms }

/-- Replaces all mappings. -/
def setMappings (a : Atlas) (rules : List MappingRule) : Except Problem Atlas := do
  let mappings ← PathMapping.ofRules rules
  pure { a with mappings }

-- ── Questions ────────────────────────────────────────────────────────────────────

/-- What the mappings make of an import target. -/
def remap (a : Atlas) : String → String := PathMapping.applyAll a.mappings

/-- The unit that a module path stands for. -/
def lookup (a : Atlas) (module : String) : Option ModuleUnit := a.registry.lookup module

/-- The declaration that a name stands for, seen from a unit. -/
def resolve (a : Atlas) (u : ModuleUnit) (name : String) (mode : SearchMode) :
    Option Resolved := a.registry.resolve a.remap u name mode

/-- The declaration that a name stands for, seen from the unit of a module path. -/
def resolveIn (a : Atlas) (module name : String) : Option Resolved :=
  a.registry.resolveIn a.remap module name

/-- The member that a name stands for in a declaration or in what it inherits from. -/
def findMember (a : Atlas) (d : Resolved) (name : String) : Option FoundMember :=
  a.registry.findMember a.remap d name

/-- All members of a declaration, inherited ones included. -/
def members (a : Atlas) (d : Resolved) : List FoundMember :=
  a.registry.members a.remap d

/-- The type name at the end of a dotted path that starts at a type, seen from a unit. -/
def resolvePath (a : Atlas) (u : ModuleUnit) (typeName path : String) : Option String :=
  a.registry.resolvePath a.remap u typeName path

end Atlas

/-!
## Reading a source tree

An atlas of the files that patterns stand for.  Source files come first, then typings, each in
the order in which their patterns give them.  A file that cannot be read is left out and
reported, behind what the patterns could not look at; a bad pattern stops the reading.
-/

/-- How much was read: files found, source modules registered, ambient modules registered. -/
structure Tally where
  files : Nat
  modules : Nat
  ambient : Nat
deriving DecidableEq, Repr, Inhabited

/-- An atlas that has been read, how much was read for it and what could not be read. -/
structure Loaded where
  atlas : Atlas
  tally : Tally
  problems : List Problem

namespace Loaded

/-- Nothing read of so many files, but some problems on the way to them. -/
def start (mappings : List PathMapping) (files : Nat) (problems : List Problem) : Loaded :=
  ⟨.empty mappings, ⟨files, 0, 0⟩, problems⟩

/-- Reports a file that cannot be read. -/
def report (l : Loaded) (s : Spot) (failure : ReadFailure) : Loaded :=
  { l with problems := l.problems ++ [.unreadable (String.ofList s.path) failure] }

/-- Registers a source file under its path, seen from the root. -/
def addSource (disk : Disk) (root : String) (l : Loaded) (s : Spot) : Loaded :=
  match disk.read s with
  | .error failure => l.report s failure
  | .ok text =>
    let key := FilePath.moduleKey root (String.ofList s.path)
    let (added, atlas) := l.atlas.insert (.ofText key text)
    { l with
      atlas
      tally := { l.tally with modules := l.tally.modules + if added then 1 else 0 } }

/-- Registers the ambient modules of a typings file. -/
def addTypings (disk : Disk) (l : Loaded) (s : Spot) : Loaded :=
  match disk.read s with
  | .error failure => l.report s failure
  | .ok text =>
    let (added, atlas) := l.atlas.addTypings text
    { l with atlas, tally := { l.tally with ambient := l.tally.ambient + added } }

end Loaded

namespace Atlas

/-- Reads the files of a disk that the patterns for sources and typings stand for. -/
def loadFrom (disk : Disk) (root : String) (sources typings : List String)
    (mappings : List PathMapping) : Except Problem Loaded := do
  let (sourceFiles, sourceProblems) ← disk.expand root sources
  let (typingFiles, typingProblems) ← disk.expand root typings
  let l := Loaded.start mappings (sourceFiles.length + typingFiles.length)
    (sourceProblems ++ typingProblems)
  let l := sourceFiles.foldl (Loaded.addSource disk root) l
  pure (typingFiles.foldl (Loaded.addTypings disk) l)

/-- Reads the files of a tree that the patterns for sources and typings stand for. -/
def load (tree : FileTree) : String → List String → List String → List PathMapping →
    Except Problem Loaded := loadFrom (.ofTree tree)

end Atlas

end DeclAtlas
