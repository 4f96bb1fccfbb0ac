import DeclAtlas.Path.Basic

/-!
# File trees

The files and directories that are asked for, as a value.  A place in a tree is the list of
names that leads to it from the root; `find?` is the view of a tree, and all other questions
are asked through it.
-/

namespace DeclAtlas

/-!
## Problems

What can go wrong outside the reading and resolving of declarations, which never fails: files,
configuration and patterns.  `Problem.message` is the wording of each.
-/

/-- Why the text of a file cannot be had. -/
inductive ReadFailure
  | notText
  | isDirectory
  | notFound
  /-- Anything else, in the words of the system. -/
  | other (words : String)
deriving DecidableEq, Repr

def ReadFailure.message : ReadFailure → String
  | notText => "stream did not contain valid UTF-8"
  | isDirectory => "Is a directory (os error 21)"
  | notFound => "No such file or directory (os error 2)"
  | other words => words

/-- A problem with a file, the configuration or a pattern. -/
inductive Problem
  | unreadable (path : String) (failure : ReadFailure)
  | badConfig (path : String)
  | badGlob (pattern : String)
  | badMapping (pattern : String)
  | badOutput (mode : String)
deriving DecidableEq, Repr

def Problem.message : Problem → String
  | unreadable path failure => "failed to read " ++ path ++ ": " ++ failure.message
  | badConfig path => "invalid config " ++ path
  | badGlob pattern => "invalid glob pattern '" ++ pattern ++ "'"
  | badMapping pattern => "invalid path mapping pattern '" ++ pattern ++ "'"
  | badOutput mode => "unsupported output mode '" ++ mode ++ "' (expected human|json)"

/-! ## Trees -/

/-- A name in a directory. -/
abbrev FileName := List Char

/-- A file or a directory with what is in it. -/
inductive FileTree
  /-- A file; one whose bytes are no text has none. -/
  | file (text : Option String)
  | directory (entries : List (FileName × FileTree))
deriving Repr, Inhabited

namespace FileTree

/-- A directory without entries. -/
def empty : FileTree := directory []

def isDirectory : FileTree → Bool
  | directory _ => true
  | file _ => false

def isFile (t : FileTree) : Bool := !t.isDirectory

/-- The entries directly in a directory. -/
def entries : FileTree → List (FileName × FileTree)
  | directory es => es
  | file _ => []

/-- What stands at a place. -/
def find? (t : FileTree) : List FileName → Option FileTree
  | [] => some t
  | n :: ns => (t.entries.lookup n).bind (find? · ns)

/-- Something stands at a place. -/
def contains (t : FileTree) (place : List FileName) : Bool := (t.find? place).isSome

/-- A directory stands at a place. -/
def hasDirectory (t : FileTree) (place : List FileName) : Bool :=
  (t.find? place).any isDirectory

/-- The text of the file at a place. -/
def read (t : FileTree) (place : List FileName) : Except ReadFailure String :=
  match t.find? place with
  | some (file (some text)) => .ok text
  | some (file none) => .error .notText
  | some (directory _) => .error .isDirectory
  | none => .error .notFound

/-- Entries with a name standing for something else. -/
def putEntry (es : List (FileName × FileTree)) (name : FileName) (t : FileTree) :
    List (FileName × FileTree) :=
  if (es.lookup name).isSome then es.map fun (n, old) => if n = name then (n, t) else (n, old)
  else es ++ [(name, t)]

/-- Two directories become one with the entries of both; otherwise the new node is taken. -/
def union (old new : FileTree) : FileTree :=
  match old, new with
  | directory es, directory fs => directory (fs.foldl (fun es (n, t) => putEntry es n t) es)
  | _, new => new

/-- Puts a file or a directory at a place, and directories on the way to it. -/
def insertAt (node : FileTree) : List FileName → FileTree → FileTree
  | [], t => union t node
  | n :: ns, t =>
    directory (putEntry t.entries n (insertAt node ns ((t.entries.lookup n).getD empty)))

mutual

/-- Everything below a directory: the place of each, seen from the directory, and what stands
    there.  A directory comes before what is in it. -/
def descendants : FileTree → List (List FileName × FileTree)
  | file _ => []
  | directory es => entriesDescendants es

/-- The entries of a directory and everything below them. -/
def entriesDescendants : List (FileName × FileTree) → List (List FileName × FileTree)
  | [] => []
  | (n, t) :: es =>
    (([n], t) :: (descendants t).map fun (place, u) => (n :: place, u)) ++ entriesDescendants es

end

@[simp] theorem find?_cons (t : FileTree) (n : FileName) (ns : List FileName) :
    t.find? (n :: ns) = (t.entries.lookup n).bind (find? · ns) := rfl

/-- Looking up a longer place goes through the shorter one. -/
theorem find?_append (t : FileTree) (ms ns : List FileName) :
    t.find? (ms ++ ns) = (t.find? ms).bind (find? · ns) := by
  induction ms generalizing t with
  | nil => rfl
  | cons m ms ih =>
      simp only [List.cons_append, find?_cons]
      cases t.entries.lookup m with
      | none => rfl
      | some u => exact ih u

end FileTree

end DeclAtlas
