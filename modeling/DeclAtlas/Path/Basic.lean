import DeclAtlas.Text.Split

/-!
# Paths

A module is named by a normalized path: segments between `/`, without empty segments and
without `.`, and with `..` only where nothing is left to leave.  A file's module path is its
normalized path without the last extension, and a relative import names a module by a path
from the directory of the module that imports it.

The functions work on characters (`List Char`); their versions on `String` are what other
modules use.
-/

namespace DeclAtlas.ModulePath

open Text

/-- A slash of either kind separates segments. -/
def isSlash (c : Char) : Bool := c == '/' || c == '\\'

/-- One more segment on a path whose segments are held in reverse.  A segment `..` leaves the
    last named segment; at the root of an absolute path it leaves nothing. -/
def push (absolute : Bool) (stack : List (List Char)) (segment : List Char) :
    List (List Char) :=
  if segment = [] ∨ segment = ['.'] then stack
  else if segment = ['.', '.'] then
    match stack with
    | [] => if absolute then [] else [segment]
    | last :: rest =>
      if last = ['.', '.'] then if absolute then stack else segment :: stack
      else rest
  else segment :: stack

/-- A path begins with a slash. -/
def isAbsolute (cs : List Char) : Bool := cs.head?.any isSlash

/-- The segments of a normalized path. -/
def resolved (cs : List Char) : List (List Char) :=
  ((pieces isSlash cs).foldl (push (isAbsolute cs)) []).reverse

/-- The normalized form of a path.  The empty relative path is written as a point. -/
def normalizeChars (cs : List Char) : List Char :=
  let joined := joinWith '/' (resolved cs)
  if isAbsolute cs then '/' :: joined
  else if joined = [] then ['.']
  else joined

/-- A name without its last extension.  A point in front of a name begins no extension. -/
def stem (name : List Char) : List Char :=
  match splitLast '.' name with
  | some ([], _) | none => name
  | some (before, _) => before

/-- The module path of a file. -/
def ofFileChars (file : List Char) : List Char :=
  let path := normalizeChars file
  match splitLast '/' path with
  | some (dir, base) => dir ++ '/' :: stem base
  | none => stem path

/-- The directory of a module path; the empty text at the top. -/
def directoryChars (path : List Char) : List Char :=
  match splitLast '/' path with
  | some ([], _) => ['/']
  | some (dir, _) => dir
  | none => []

/-- The normalized path that a specifier names from the directory of a module. -/
def joinChars (module specifier : List Char) : List Char :=
  match directoryChars module with
  | [] => normalizeChars specifier
  | dir => normalizeChars (dir ++ '/' :: specifier)

-- ── On strings ───────────────────────────────────────────────────────────────────

/-- The normalized form of a path. -/
def normalize (path : String) : String := String.ofList (normalizeChars path.toList)

/-- The module path of a file. -/
def ofFile (file : String) : String := String.ofList (ofFileChars file.toList)

/-- The directory of a module path; the empty text at the top. -/
def directory (path : String) : String := String.ofList (directoryChars path.toList)

/-- The normalized path that a specifier names from the directory of a module. -/
def join (module specifier : String) : String :=
  String.ofList (joinChars module.toList specifier.toList)

/-- The module path that an import or export specifier names from a module.  A specifier that
    does not begin with a point names a module as it is written. -/
def target (module specifier : String) : String :=
  if specifier.toList.head? = some '.' then join module specifier else specifier

-- ── No module path is empty ──────────────────────────────────────────────────────

/-- No normalized path is empty: the point stands for where a path starts. -/
theorem normalizeChars_ne_nil (cs : List Char) : normalizeChars cs ≠ [] := by
  unfold normalizeChars
  by_cases ha : isAbsolute cs = true
  · rw [if_pos ha]
    exact List.cons_ne_nil _ _
  · rw [if_neg ha]
    split
    · exact List.cons_ne_nil _ _
    · assumption

theorem stem_ne_nil {name : List Char} (h : name ≠ []) : stem name ≠ [] := by
  unfold stem
  cases hs : splitLast '.' name with
  | none => exact h
  | some parts =>
      obtain ⟨before, after⟩ := parts
      cases before with
      | nil => exact h
      | cons c cs => exact List.cons_ne_nil c cs

theorem ofFileChars_ne_nil (file : List Char) : ofFileChars file ≠ [] := by
  unfold ofFileChars
  have hpath := normalizeChars_ne_nil file
  cases hs : splitLast '/' (normalizeChars file) with
  | none => simpa [hs] using stem_ne_nil hpath
  | some parts => simp [hs]

/-- Every file has a module path: stripping the extension leaves something. -/
theorem ofFile_ne_empty (file : String) : ofFile file ≠ "" := by
  intro h
  apply ofFileChars_ne_nil file.toList
  exact String.ofList_eq_empty_iff.mp h

end DeclAtlas.ModulePath

namespace DeclAtlas.FilePath

/-!
## File paths

Paths of files as a Unix file system reads them: a sequence of components, for which repeated
slashes and inner points do not count.  Of the rules here, only those are needed that relate
a file to the directory from which a source tree is read, and both to module paths.
-/

open Text

/-- A component of a file path. -/
inductive Component
  | root
  | current
  | parent
  | name (chars : List Char)
deriving DecidableEq, Repr

/-- The text of a component. -/
def Component.chars : Component → List Char
  | root => ['/']
  | current => ['.']
  | parent => ['.', '.']
  | name cs => cs

/-- The component that a segment stands for; none for an empty segment and for a point. -/
def component? (segment : List Char) : Option Component :=
  if segment = [] ∨ segment = ['.'] then none
  else if segment = ['.', '.'] then some .parent
  else some (.name segment)

/-- A path that begins with a slash. -/
def isAbsolute (path : List Char) : Bool := path.head? == some '/'

/-- The components of a path.  A point counts only at the front of a relative path. -/
def components (path : List Char) : List Component :=
  let segments := pieces (· == '/') path
  let front : List Component :=
    if isAbsolute path then [.root]
    else if segments.head? = some ['.'] then [.current]
    else []
  front ++ segments.filterMap component?

/-- The text of a list of components. -/
def render : List Component → List Char
  | .root :: rest => '/' :: joinWith '/' (rest.map Component.chars)
  | cs => joinWith '/' (cs.map Component.chars)

/-- One path after the other, unless the second is absolute. -/
def append (base path : List Char) : List Char :=
  if isAbsolute path ∨ base = [] then path
  else if base.getLast? = some '/' then base ++ path
  else base ++ '/' :: path

/-- The name of the file at the end of a path. -/
def fileName? (path : List Char) : Option (List Char) :=
  match (components path).getLast? with
  | some (.name cs) => some cs
  | _ => none

/-- What follows the last point of a file's name, unless that point is its first character. -/
def extension? (path : List Char) : Option (List Char) :=
  match (fileName? path).bind (splitLast '.') with
  | some ([], _) | none => none
  | some (_, ext) => some ext

/-- The components that lead from `base` to `path`.  Equal components in front are left out
    while nothing is put out (`started` is false); a `..` in the base that has to be undone
    leads nowhere. -/
def relativeComponents (started : Bool) :
    (path base : List Component) → Option (List Component)
  | path, [] => some path
  | [], _ :: base => (relativeComponents true [] base).map (.parent :: ·)
  | p :: path, b :: base =>
    if started = false ∧ p = b then relativeComponents false path base
    else if b = .current then (relativeComponents true path base).map (p :: ·)
    else if b = .parent then none
    else some (.parent :: base.map (fun _ => .parent) ++ p :: path)

/-- The path that leads from the directory `base` to `path`.  An absolute path is its own
    answer where the base is relative. -/
def relative? (path base : List Char) : Option (List Char) :=
  if isAbsolute path = isAbsolute base then
    (relativeComponents false (components path) (components base)).map render
  else if isAbsolute path then some path
  else none

/-- Components with each `..` undoing the name before it.  Leading ones are lost. -/
def foldParents (cs : List Component) : List Component :=
  (cs.foldl (fun stack c =>
    match c, stack with
    | .current, _ => stack
    | .parent, .root :: _ => stack
    | .parent, _ => stack.tail
    | c, _ => c :: stack) []).reverse

-- ── Files and modules ────────────────────────────────────────────────────────────

/-- Extensions of source files. -/
def sourceExtensions : List (List Char) :=
  ["ts", "tsx", "mts", "cts", "js", "jsx", "mjs", "cjs"].map String.toList

/-- The module path of a file, seen from the root of the source tree. -/
def moduleKeyChars (root file : List Char) : List Char :=
  ModulePath.ofFileChars ((relative? file root).getD file)

/-- The module path that an argument names: that of a file if it has the extension of a source
    file, and otherwise a module path as it is. -/
def moduleArgChars (root arg : List Char) : List Char :=
  let path := if isAbsolute arg then (relative? arg root).getD arg else arg
  if (extension? arg).any sourceExtensions.contains then ModulePath.ofFileChars path
  else ModulePath.normalizeChars path

/-- The module path of a file, seen from the root of the source tree. -/
def moduleKey (root file : String) : String :=
  String.ofList (moduleKeyChars root.toList file.toList)

/-- The module path that an argument names, seen from the root of the source tree. -/
def moduleArg (root arg : String) : String :=
  String.ofList (moduleArgChars root.toList arg.toList)

end DeclAtlas.FilePath
