import DeclAtlas.FileTree.Basic
import DeclAtlas.Pattern.Program
import DeclAtlas.Toml.Reader
import DeclAtlas.Yaml.Node

/-!
# Settings

Where a source tree begins, which of its files are read and how answers are written.  The tree
begins at the nearest directory, going up from a start, that holds a configuration file or a
repository.  What the command line says counts before what the configuration file says, and
that before the defaults.

Of the files, only two things are asked (`Files`): whether something stands at a place, and the
text there.  What a text says in the format of a configuration file is asked of a reader.
-/

namespace DeclAtlas

/-!
## Configuration files

What a configuration file may say, and how it is read from TOML and from YAML.  Both formats
share the keys `sources`, `typings`, `output` and `paths`; keys of other names are left alone.
They differ in what counts as a text: in TOML only a string, in YAML every scalar, of which
some stand for nothing where a value may be missing.
-/

/-- The content of a configuration file. -/
structure ConfigFile where
  sources : Option (List String)
  typings : Option (List String)
  output : Option String
  /-- Mappings of import targets, in order. -/
  paths : List MappingRule
deriving DecidableEq, Repr, Inhabited

namespace ConfigFile

/-- A file that says nothing. -/
def empty : ConfigFile := ⟨none, none, none, []⟩

/-- A format of configuration files. -/
inductive Format
  | toml
  | yaml
deriving DecidableEq, Repr

/-- The names of configuration files with their formats, the first one found being read. -/
def names : List (String × Format) :=
  [("vmreflect.toml", .toml), ("vmreflect.yaml", .yaml), ("vmreflect.yml", .yaml)]

-- ── TOML ─────────────────────────────────────────────────────────────────────────

/-- The string of a value. -/
def tomlText : Toml.Value → Option String
  | .text s => some s
  | _ => none

/-- The strings of a list. -/
def tomlTexts : Toml.Value → Option (List String)
  | .list vs => vs.mapM tomlText
  | _ => none

/-- A mapping: a table, or a list whose first two items are the pattern and the replacement. -/
def tomlRule : Toml.Value → Option MappingRule
  | .table es => do
    pure ⟨← tomlText (← es.lookup "pattern"), ← tomlText (← es.lookup "replacement")⟩
  | .list (p :: r :: _) => do pure ⟨← tomlText p, ← tomlText r⟩
  | _ => none

/-- A list of mappings. -/
def tomlRules : Toml.Value → Option (List MappingRule)
  | .list vs => vs.mapM tomlRule
  | _ => none

/-- The configuration of a document. -/
def ofToml (document : List (String × Toml.Value)) : Option ConfigFile := do
  pure {
    sources := ← (document.lookup "sources").mapM tomlTexts
    typings := ← (document.lookup "typings").mapM tomlTexts
    output := ← (document.lookup "output").mapM tomlText
    paths := (← (document.lookup "paths").mapM tomlRules).getD []
  }

-- ── YAML ─────────────────────────────────────────────────────────────────────────

/-- The text of a scalar, whatever it looks like. -/
def yamlText (d : Yaml.Document) (n : Yaml.Node) : Option String :=
  match d.target n with
  | .scalar _ _ s => some s
  | _ => none

/-- The words that stand for no value. -/
def yamlNulls : List String := ["~", "null", "Null", "NULL"]

/-- The tag of a scalar that stands for no value. -/
def yamlNullTag : String := "tag:yaml.org,2002:null"

/-- A value that may be absent.  Without a tag, a plain scalar that is empty or one of the words
    is; with the tag of absent values it has to be one of the words. -/
def yamlOptional (d : Yaml.Document) (f : Yaml.Node → Option α) (n : Yaml.Node) :
    Option (Option α) :=
  match d.target n with
  | .scalar true none s => if s = "" ∨ yamlNulls.contains s then some none else (f n).map some
  | .scalar true (some tag) s =>
    if tag = yamlNullTag then if yamlNulls.contains s then some none else none
    else (f n).map some
  | _ => (f n).map some

/-- The items of a list.  A plain scalar that is empty is an empty list. -/
def yamlItems (d : Yaml.Document) (n : Yaml.Node) : Option (List Yaml.Node) :=
  match d.target n with
  | .list ns => some ns
  | .scalar true _ "" => some []
  | _ => none

/-- The entries of a mapping.  A plain scalar that is empty is a mapping without entries. -/
def yamlPairs (d : Yaml.Document) (n : Yaml.Node) : Option (List (Yaml.Node × Yaml.Node)) :=
  match d.target n with
  | .map es => some es
  | .scalar true _ "" => some []
  | _ => none

/-- The entries of a mapping, all of whose keys are scalars and of which those with the given
    keys are there only once. -/
def yamlEntries (d : Yaml.Document) (known : List String) (n : Yaml.Node) :
    Option (List (String × Yaml.Node)) := do
  let es ← (← yamlPairs d n).mapM fun (k, v) => (yamlText d k).map (·, v)
  if known.all fun key => (es.filter (·.1 == key)).length ≤ 1 then pure es else none

/-- The texts of a list. -/
def yamlTexts (d : Yaml.Document) (n : Yaml.Node) : Option (List String) :=
  (yamlItems d n).bind (·.mapM (yamlText d))

/-- A mapping of import targets. -/
def yamlRule (d : Yaml.Document) (n : Yaml.Node) : Option MappingRule := do
  let es ← yamlEntries d ["pattern", "replacement"] n
  pure ⟨← yamlText d (← es.lookup "pattern"), ← yamlText d (← es.lookup "replacement")⟩

/-- A list of mappings, which may be left out, but not be said to be absent. -/
def yamlRules (d : Yaml.Document) (n : Yaml.Node) : Option (List MappingRule) :=
  (yamlItems d n).bind (·.mapM (yamlRule d))

/-- The nodes that are looked at in order to read a list.  `inner` gives those of an item. -/
def yamlSeenItems (d : Yaml.Document) (inner : Yaml.Node → List Yaml.Node) (n : Yaml.Node) :
    List Yaml.Node := n :: ((yamlItems d n).getD []).flatMap inner

/-- The nodes that are looked at in order to read the entries of a mapping: the keys, and for
    those that count also the values.  `inner` gives the nodes of the value of a key. -/
def yamlSeenEntries (d : Yaml.Document) (inner : String → Yaml.Node → List Yaml.Node)
    (n : Yaml.Node) : List Yaml.Node :=
  n :: ((yamlPairs d n).getD []).flatMap fun (k, v) =>
    k :: ((yamlText d k).map (inner · v)).getD []

/-- The nodes that are looked at in order to read a document from its root. -/
def yamlSeen (d : Yaml.Document) : Yaml.Node → List Yaml.Node :=
  yamlSeenEntries d fun key v =>
    if key = "sources" ∨ key = "typings" then yamlSeenItems d (fun item => [item]) v
    else if key = "output" then [v]
    else if key = "paths" then
      yamlSeenItems d (yamlSeenEntries d fun key v =>
        if key = "pattern" ∨ key = "replacement" then [v] else []) v
    else []

/-- The configuration of a document that can be read without following too many aliases. -/
def ofYaml (d : Yaml.Document) : Option ConfigFile :=
  match d.root with
  | none => some empty
  | some n => do
    guard ((yamlSeen d n).countP Yaml.Node.isAlias ≤ d.aliasLimit)
    let es ← yamlEntries d ["sources", "typings", "output", "paths"] n
    pure {
      sources := (← (es.lookup "sources").mapM (yamlOptional d (yamlTexts d))).join
      typings := (← (es.lookup "typings").mapM (yamlOptional d (yamlTexts d))).join
      output := (← (es.lookup "output").mapM (yamlOptional d (yamlText d))).join
      paths := (← (es.lookup "paths").mapM (yamlRules d)).getD []
    }

-- ── Both ─────────────────────────────────────────────────────────────────────────

/-- The configuration that a text of some format holds. -/
def ofText? (format : Format) (text : String) : Option ConfigFile :=
  match format with
  | .toml => (Toml.read text).toOption.bind ofToml
  | .yaml => (Yaml.read text).toOption.bind ofYaml

end ConfigFile

/-! ## Settings of a tree -/

/-- How answers are written. -/
inductive OutputMode
  | human
  | json
deriving DecidableEq, Repr

namespace OutputMode

def label : OutputMode → String
  | human => "human"
  | json => "json"

/-- The mode of a name. -/
def ofLabel? (s : String) : Option OutputMode := [human, json].find? (·.label == s)

end OutputMode

/-- Settings given on the command line.  An empty list gives nothing. -/
structure Overrides where
  root : Option String
  sources : List String
  typings : List String
  output : Option String
deriving DecidableEq, Repr, Inhabited

/-- What files are asked for. -/
structure Files where
  /-- Something stands at a place. -/
  contains : List FileName → Bool
  /-- The text of the file at a place. -/
  read : List FileName → Except ReadFailure String

/-- The files of a tree. -/
def Files.ofTree (tree : FileTree) : Files := ⟨tree.contains, tree.read⟩

/-- The settings of a run. -/
structure Settings where
  /-- The path of the directory that the source tree begins at. -/
  root : String
  sources : List String
  typings : List String
  output : OutputMode
  paths : List MappingRule
  configFound : Bool
deriving DecidableEq, Repr

namespace Settings

/-- The pattern of source files if none is given. -/
def defaultSources : List String := ["src/**/*.ts"]

-- ── Discovery ────────────────────────────────────────────────────────────────────

/-- The names of an absolute path without `.` and `..`. -/
def placeOf (cs : List FilePath.Component) : List FileName :=
  cs.filterMap fun
    | .name n => some n
    | _ => none

/-- The path of a place. -/
def pathOf (place : List FileName) : List Char :=
  FilePath.render (.root :: place.map FilePath.Component.name)

/-- The place that discovery starts at: the given root, seen from the working directory. -/
def start (cwd : String) (root : Option String) : List FileName :=
  placeOf (FilePath.foldParents
    (FilePath.components (FilePath.append cwd.toList (root.getD ".").toList)))

/-- A place and the places above it, the farthest first. -/
def downward : List FileName → List (List FileName)
  | [] => [[]]
  | n :: ns => [] :: (downward ns).map (n :: ·)

/-- A place and the places above it, the nearest first. -/
def upward (place : List FileName) : List (List FileName) := (downward place).reverse

/-- The names that mark the directory that a source tree begins at. -/
def markers : List FileName := (ConfigFile.names.map (·.1) ++ [".git"]).map String.toList

/-- The directory holds a configuration file or a repository. -/
def marked (files : Files) (place : List FileName) : Bool :=
  markers.any fun name => files.contains (place ++ [name])

/-- The nearest marked place upward from a start; the start itself if there is none. -/
def rootPlace (files : Files) (start : List FileName) : List FileName :=
  ((upward start).find? (marked files)).getD start

/-- The configuration at a place.  Only the first configuration file there is read; one that
    cannot be read is a problem. -/
def configAt (files : Files) (reader : ConfigFile.Format → String → Option ConfigFile)
    (place : List FileName) : Except Problem (Option ConfigFile) :=
  match ConfigFile.names.find? fun (name, _) => files.contains (place ++ [name.toList]) with
  | none => .ok none
  | some (name, format) =>
    let path := String.ofList (FilePath.append (pathOf place) name.toList)
    match files.read (place ++ [name.toList]) with
    | .error failure => .error (.unreadable path failure)
    | .ok text =>
      match reader format text with
      | none => .error (.badConfig path)
      | some config => .ok (some config)

-- ── Precedence ───────────────────────────────────────────────────────────────────

/-- The value given on the command line, else that of the file, else the default. -/
def prefer (given : List String) (config : Option (List String)) (default : List String) :
    List String := if given = [] then config.getD default else given

/-- The settings of a run in a working directory, with a reader of configuration files. -/
def resolveFrom (files : Files) (reader : ConfigFile.Format → String → Option ConfigFile)
    (cwd : String) (given : Overrides) : Except Problem Settings := do
  let place := rootPlace files (start cwd given.root)
  let found ← configAt files reader place
  let config := found.getD .empty
  let output := (given.output <|> config.output).getD OutputMode.human.label
  match OutputMode.ofLabel? output with
  | none => .error (.badOutput output)
  | some mode =>
    pure {
      root := String.ofList (pathOf place)
      sources := prefer given.sources config.sources defaultSources
      typings := prefer given.typings config.typings []
      output := mode
      paths := config.paths
      configFound := found.isSome
    }

/-- The settings of a run in a working directory of a tree. -/
def resolve (tree : FileTree) (cwd : String) (given : Overrides) : Except Problem Settings :=
  resolveFrom (.ofTree tree) ConfigFile.ofText? cwd given

end Settings

end DeclAtlas
