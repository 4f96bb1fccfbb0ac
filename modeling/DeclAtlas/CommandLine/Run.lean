import DeclAtlas.CommandLine.Arguments
import DeclAtlas.Report.Basic

/-!
# Runs

What a run of the program answers, as a function of its arguments and of what it finds around
it.  Answers go to the output; notes, warnings and errors go to the notices.  In the JSON mode
the output is always one document, and there are no notes and warnings, since the document lists
the problems.
-/

namespace DeclAtlas.CommandLine

open Report

/-- What a run finds around it. -/
structure Surroundings where
  tree : FileTree
  /-- The path of the working directory. -/
  cwd : String
  colors : Bool

/-- What a run leaves behind. -/
structure Outcome where
  /-- The exit code: 0 if there is an answer, 1 if nothing was found, 2 if the run could not go
      on. -/
  code : Nat
  output : String
  notices : String
  /-- The problem that stopped the run. -/
  problem : Option Problem
deriving DecidableEq, Repr

/-- The version of the program. -/
def version : String := "0.1.0"

/-- The name of the program and its version. -/
def banner : String := "vmreflect " ++ version

/-- Lines, each with its end. -/
def unlines (lines : List String) : String := String.join (lines.map (· ++ "\n"))

-- ── Notices ──────────────────────────────────────────────────────────────────────

/-- A notice behind its label. -/
def notice (colors : Bool) (label : String) (c : Color) (text : String) : String :=
  bold colors (paint colors c label) ++ " " ++ text

def errorLine (colors : Bool) : String → String := notice colors "error:" .red

def warningLine (colors : Bool) : String → String := notice colors "warning:" .yellow

def noteLine (colors : Bool) : String → String := notice colors "note:" .cyan

def infoLine (colors : Bool) : String → String := notice colors "info:" .blue

/-- Says that there is no configuration file. -/
def configNotes (colors : Bool) (s : Settings) : List String :=
  if s.output = .json ∨ s.configFound then []
  else [noteLine colors "No vmreflect.toml found; using defaults."]

/-- Says that there are no files, and which files could not be read. -/
def loadNotes (colors : Bool) (s : Settings) (l : Loaded) : List String :=
  if s.output = .json then []
  else
    (if l.tally.files = 0 then
      [infoLine colors ("No files matched [" ++ ", ".intercalate s.sources ++ "]")]
    else []) ++ l.problems.map fun p => warningLine colors p.message

-- ── Answers ──────────────────────────────────────────────────────────────────────

/-- The answer to a question: exit code, lines of output, and an error if nothing was found. -/
structure Answer where
  code : Nat
  lines : List String
  error : Option String
deriving DecidableEq, Repr

namespace Answer

/-- An answer in the mode that is asked for. -/
def found (s : Settings) (document : Document) (lines : List String) : Answer :=
  match s.output with
  | .json => ⟨0, [document.pretty], none⟩
  | .human => ⟨0, lines, none⟩

/-- Nothing was found; the document says so, too. -/
def missing (s : Settings) (document : Document) (error : String) : Answer :=
  match s.output with
  | .json => ⟨1, [document.pretty], some error⟩
  | .human => ⟨1, [], some error⟩

end Answer

/-- Says that a module is not there. -/
def unregistered (key : String) : String := "module '" ++ key ++ "' is not registered"

/-- Says that a name stands for no declaration. -/
def unresolved (typeName key : String) : String :=
  "'" ++ typeName ++ "' does not resolve from module '" ++ key ++ "'"

/-- Tells of the declaration that a name stands for, seen from a module. -/
def describe (colors : Bool) (s : Settings) (l : Loaded) (typeName module : String)
    (entry : Resolved → DeclarationEntry) : Answer :=
  let key := FilePath.moduleArg s.root module
  let nothing := declarationDocument none l.problems
  match l.atlas.lookup key with
  | none => .missing s nothing (unregistered key)
  | some unit =>
    match l.atlas.resolve unit typeName .imports with
    | none => .missing s nothing (unresolved typeName key)
    | some d =>
      let e := entry d
      .found s (declarationDocument (some e) l.problems) (e.lines colors)

/-- Tells of the type at the end of a member path. -/
def follow (colors : Bool) (s : Settings) (l : Loaded) (typeName path module : String) :
    Answer :=
  let key := FilePath.moduleArg s.root module
  match l.atlas.lookup key with
  | none =>
    .missing s (queryDocument ⟨typeName, path, key, none⟩ l.problems) (unregistered key)
  | some unit =>
    let e : QueryEntry := ⟨typeName, path, key, l.atlas.resolvePath unit typeName path⟩
    let answer := Answer.found s (queryDocument e l.problems) [e.line colors]
    { answer with code := if e.result.isSome then 0 else 1 }

/-- The answer to a question. -/
def answer (colors : Bool) (s : Settings) (l : Loaded) : Question → Answer
  | .modules =>
    let entries := moduleEntries l.atlas.registry
    .found s (modulesDocument entries l.tally l.problems) (moduleLines colors entries l.tally)
  | .resolve typeName module => describe colors s l typeName module ownEntry
  | .members typeName module =>
    describe colors s l typeName module fun d => inheritedEntry d (l.atlas.members d)
  | .path typeName path module => follow colors s l typeName path module

-- ── Runs ─────────────────────────────────────────────────────────────────────────

/-- Reads the source tree under some settings. -/
def load (tree : FileTree) (s : Settings) : Except Problem Loaded := do
  let mappings ← PathMapping.ofRules s.paths
  Atlas.load tree s.root s.sources s.typings mappings

/-- A problem stops the run. -/
def stop (colors : Bool) (notices : List String) (p : Problem) : Outcome :=
  ⟨2, "", unlines (notices ++ [errorLine colors p.message]), some p⟩

/-- Asks a question about the source tree. -/
def ask (around : Surroundings) (given : Overrides) (q : Question) : Outcome :=
  let colors := around.colors
  match Settings.resolve around.tree around.cwd given with
  | .error p => stop colors [] p
  | .ok s =>
    let notes := configNotes colors s
    match load around.tree s with
    | .error p => stop colors notes p
    | .ok l =>
      let a := answer colors s l q
      let errors := a.error.toList.map (errorLine colors)
      ⟨a.code, unlines a.lines, unlines (notes ++ loadNotes colors s l ++ errors), none⟩

/-- A run with the given arguments. -/
def run (around : Surroundings) (args : List String) : Outcome :=
  match Command.ofArguments args with
  | .error e => ⟨2, "", unlines [e.message], none⟩
  | .ok .banner => ⟨0, unlines [banner], "", none⟩
  | .ok .version => ⟨0, unlines [version], "", none⟩
  | .ok (.ask given q) => ask around given q

end DeclAtlas.CommandLine
