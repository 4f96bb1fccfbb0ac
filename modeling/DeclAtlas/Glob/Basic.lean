import DeclAtlas.FileTree.Basic
import DeclAtlas.Text.Split

/-!
# File patterns

Patterns of file paths.  A pattern is cut at its slashes into segments, each of which stands
for one name, except `**`, which stands for any number of directories.  In a segment, `?` is one
character, `*` any run of characters, and brackets hold characters and ranges of which one has
to be there or, behind `!`, must not be there; all else stands for itself.
-/

namespace DeclAtlas.Glob

open Text

/-- A part of a segment. -/
inductive Part
  | exactly (c : Char)
  | anyChar
  | anyRun
  /-- One character in one of the ranges. -/
  | within (ranges : List (Char × Char))
  /-- One character in none of the ranges. -/
  | outside (ranges : List (Char × Char))
deriving DecidableEq, Repr

/-- A segment of a pattern. -/
inductive Segment
  /-- Any number of directories. -/
  | anyDepth
  | name (parts : List Part)
deriving DecidableEq, Repr

/-- A pattern, cut at its slashes. -/
structure Pattern where
  segments : List Segment
  /-- The pattern ends with a slash, so that only directories match. -/
  directoriesOnly : Bool
deriving DecidableEq, Repr

-- ── Matching ─────────────────────────────────────────────────────────────────────

/-- A character lies in one of the ranges. -/
def inRanges (ranges : List (Char × Char)) (c : Char) : Bool :=
  ranges.any fun (lo, hi) => lo ≤ c && c ≤ hi

/-- A predicate holds of a text or of what is left of it from some character on. -/
def someSuffix (p : List Char → Bool) : List Char → Bool
  | [] => p []
  | c :: cs => p (c :: cs) || someSuffix p cs

/-- The next character satisfies a test, and what follows a predicate. -/
def nextChar (test : Char → Bool) (p : List Char → Bool) : List Char → Bool
  | [] => false
  | c :: cs => test c && p cs

/-- A name consists of characters that the parts stand for, one after the other. -/
def matchParts : List Part → List Char → Bool
  | [] => List.isEmpty
  | .exactly c :: ps => nextChar (· == c) (matchParts ps)
  | .anyChar :: ps => nextChar (fun _ => true) (matchParts ps)
  | .anyRun :: ps => someSuffix (matchParts ps)
  | .within ranges :: ps => nextChar (inRanges ranges) (matchParts ps)
  | .outside ranges :: ps => nextChar (fun c => !inRanges ranges c) (matchParts ps)

/-- The only name that the parts stand for, if they are all single characters. -/
def literal? (ps : List Part) : Option (List Char) :=
  ps.mapM fun
    | .exactly c => some c
    | _ => none

-- ── Reading ──────────────────────────────────────────────────────────────────────

/-- The characters between brackets as ranges.  A hyphen between two characters makes a range of
    them. -/
def ranges : List Char → List (Char × Char)
  | lo :: '-' :: hi :: cs => (lo, hi) :: ranges cs
  | c :: cs => (c, c) :: ranges cs
  | [] => []

/-- What stands before and after the first closing bracket. -/
def uptoBracket : List Char → Option (List Char × List Char)
  | [] => none
  | ']' :: cs => some ([], cs)
  | c :: cs => (uptoBracket cs).map fun (inner, rest) => (c :: inner, rest)

theorem length_of_uptoBracket {cs inner rest : List Char}
    (h : uptoBracket cs = some (inner, rest)) : rest.length < cs.length := by
  fun_induction uptoBracket cs generalizing inner rest with
  | case1 => simp at h
  | case2 cs =>
      simp only [Option.some.injEq, Prod.mk.injEq] at h
      simp [h.2]
  | case3 c cs _ ih =>
      simp only [Option.map_eq_some_iff, Prod.mk.injEq, Prod.exists] at h
      obtain ⟨i, r, hir, -, rfl⟩ := h
      have := ih hir
      simp only [List.length_cons]
      omega

/-- The parts of a segment that is not `**`.  Two stars in a row, and a bracket that is not closed
    or has nothing in it, are refused.  The first character between brackets may be a closing
    bracket. -/
def parts : List Char → Option (List Part)
  | [] => some []
  | '?' :: cs => (parts cs).map (.anyChar :: ·)
  | '*' :: '*' :: _ => none
  | '*' :: cs => (parts cs).map (.anyRun :: ·)
  | '[' :: '!' :: c :: cs =>
    match h : uptoBracket cs with
    | some (inner, rest) =>
      have := length_of_uptoBracket h
      (parts rest).map (.outside (ranges (c :: inner)) :: ·)
    | none => none
  | ['[', '!'] => none
  | '[' :: c :: cs =>
    match h : uptoBracket cs with
    | some (inner, rest) =>
      have := length_of_uptoBracket h
      (parts rest).map (.within (ranges (c :: inner)) :: ·)
    | none => none
  | ['['] => none
  | c :: cs => (parts cs).map (.exactly c :: ·)
termination_by cs => cs.length
decreasing_by all_goals simp_wf; try omega

/-- A segment of a pattern. -/
def segment (cs : List Char) : Option Segment :=
  if cs = ['*', '*'] then some .anyDepth else (parts cs).map .name

/-- The pieces of a text that are ended by slashes; what follows the last slash only counts if
    there is something. -/
def slashPieces (cs : List Char) : List (List Char) :=
  let ps := pieces (· == '/') cs
  if ps.getLast? = some [] then ps.dropLast else ps

/-- Reads the text of an absolute path as a pattern. -/
def Pattern.ofChars? (path : List Char) : Option Pattern := do
  let segments ← (slashPieces (path.dropWhile (· == '/'))).mapM segment
  pure ⟨segments, path.getLast? == some '/'⟩

end DeclAtlas.Glob

namespace DeclAtlas

/-!
## What matches a pattern

The files and directories of a tree that a pattern stands for.  Segments are followed from the
root; a literal segment is entered without looking at other entries, so `.` and `..` work there
as in any path.  Everything found has the path that led to it, and is put in order by the
components of this path.
-/

/-- A file or directory together with the path on which it was reached. -/
structure Spot where
  path : List Char
  place : List FileName
deriving DecidableEq, Repr

namespace Spot

/-- The root of a tree. -/
def root : Spot := ⟨['/'], []⟩

/-- The entry of this name.  The empty name and `.` stay where they are, `..` goes up. -/
def enter (s : Spot) (name : FileName) : Spot :=
  { path := FilePath.append s.path name
    place :=
      if name = [] ∨ name = ['.'] then s.place
      else if name = ['.', '.'] then s.place.dropLast
      else s.place ++ [name] }

/-- What is below a spot. -/
def enterAll (s : Spot) (names : List FileName) : Spot := names.foldl enter s

/-- The components that two paths are compared by. -/
def components (s : Spot) : List FilePath.Component := FilePath.components s.path

/-- What components are ordered by: the root, `.`, `..`, then names by their characters. -/
def componentKey : FilePath.Component → List Nat
  | .root => [0]
  | .current => [1]
  | .parent => [2]
  | .name cs => 3 :: cs.map Char.toNat

/-- What spots are ordered by. -/
def sortKey (s : Spot) : List (List Nat) := s.components.map componentKey

/-- A spot comes before another or has the same components. -/
def le (s t : Spot) : Bool :=
  (List.compareLex (List.compareLex compare) s.sortKey t.sortKey).isLE

/-- The spots without those that have the components of an earlier one. -/
def firsts : List Spot → List Spot
  | [] => []
  | s :: ss => s :: (firsts ss).filter fun t => t.components ≠ s.components

end Spot

namespace Glob

/-- The entry of a literal name.  Only in a directory is there one, and it has to exist. -/
def literalEntry (tree : FileTree) (s : Spot) (name : FileName) : List Spot :=
  let t := s.enter name
  if tree.hasDirectory s.place && tree.contains t.place then [t] else []

/-- `..` and `.`, as far as the parts match them.  They count only for parts that begin with a
    point. -/
def specialEntries (tree : FileTree) (s : Spot) (ps : List Part) : List Spot :=
  if tree.hasDirectory s.place && ps.head? == some (.exactly '.') then
    ([['.', '.'], ['.']].filter (matchParts ps)).map s.enter
  else []

/-- The entries of a directory whose names the parts match. -/
def matchingEntries (tree : FileTree) (s : Spot) (ps : List Part) : List Spot :=
  match tree.find? s.place with
  | some t => ((t.entries.map (·.1)).filter (matchParts ps)).map s.enter
  | none => []

/-- Where a segment that stands for a name leads. -/
def nameEntries (tree : FileTree) (s : Spot) (ps : List Part) : List Spot :=
  match literal? ps with
  | some name => literalEntry tree s name
  | none => specialEntries tree s ps ++ matchingEntries tree s ps

/-- Everything below a directory, with its names. -/
def descendants (tree : FileTree) (s : Spot) : List (List FileName × FileTree) :=
  match tree.find? s.place with
  | some t => t.descendants
  | none => []

/-- The spots that segments lead to.  Behind `**`, a segment is compared with the name of
    everything below; at the end, `**` stands for the directories below. -/
def walk (tree : FileTree) : List Segment → Spot → List Spot
  | [], s => [s]
  | .name ps :: rest, s => (nameEntries tree s ps).flatMap (walk tree rest)
  | [.anyDepth], s =>
    ((descendants tree s).filter fun (_, t) => t.isDirectory).map fun (names, _) =>
      s.enterAll names
  | .anyDepth :: .anyDepth :: rest, s => walk tree (.anyDepth :: rest) s
  | .anyDepth :: .name ps :: rest, s =>
    ((descendants tree s).filter fun (names, _) => names.getLast?.any (matchParts ps)).flatMap
      fun (names, _) => walk tree rest (s.enterAll names)

/-- The segment may lead from a directory to the one above it. -/
def Segment.mayRise : Segment → Bool
  | .name ps => matchParts ps ['.', '.']
  | .anyDepth => false

/-- The segment stands for one name only. -/
def Segment.literal? : Segment → Option FileName
  | .name ps => Glob.literal? ps
  | .anyDepth => none

/-- A place that everything a pattern may lead to is at or below: where its literal segments at
    the front lead, and one up for each later segment that may rise. -/
def Pattern.base (p : Pattern) : List FileName :=
  let lead := p.segments.takeWhile (·.literal?.isSome)
  let rises := (p.segments.drop lead.length).countP Segment.mayRise
  let place := (Spot.root.enterAll (lead.filterMap Segment.literal?)).place
  place.take (place.length - rises)

/-- The files and directories that a pattern stands for. -/
def Pattern.spots (p : Pattern) (tree : FileTree) : List Spot :=
  (walk tree p.segments .root).filter fun s => !p.directoriesOnly || tree.hasDirectory s.place

end Glob

/-!
## Files that patterns stand for

Patterns are looked up on a disk (`Disk`), which lists what a pattern leads to and gives the
texts of files; a file tree is one.  A listing has no order of its own, may hold directories,
and may hold places that could not be looked at.
-/

/-- What a pattern leads to: a file or directory, or a path at which the search failed. -/
abbrev GlobEntry := Except (String × ReadFailure) Spot

/-- What a source tree is read from. -/
structure Disk where
  /-- What a pattern leads to; a pattern that cannot be read leads to no listing. -/
  glob : List Char → Option (List GlobEntry)
  isFile : Spot → Bool
  /-- The text of a file. -/
  read : Spot → Except ReadFailure String

namespace Disk

/-- A file tree, in which everything can be looked at. -/
def ofTree (tree : FileTree) : Disk where
  glob path := (Glob.Pattern.ofChars? path).map fun p => (p.spots tree).map .ok
  isFile s := (tree.find? s.place).any FileTree.isFile
  read s := tree.read s.place

variable (disk : Disk)

/-- The files in a listing. -/
def filesIn (entries : List GlobEntry) : List Spot :=
  (entries.filterMap Except.toOption).filter disk.isFile

/-- The problem that an entry of a listing stands for. -/
def problem? : GlobEntry → Option Problem
  | .ok _ => none
  | .error (path, failure) => some (.unreadable path failure)

/-- What a pattern leads to, seen from a directory.  A pattern that cannot be read is a
    problem. -/
def listing (root pattern : String) : Except Problem (List GlobEntry) :=
  match disk.glob (FilePath.append root.toList pattern.toList) with
  | some entries => .ok entries
  | none => .error (.badGlob pattern)

/-- The files that patterns stand for, seen from a directory: those of the first pattern, sorted
    by their paths, then those of the second that are not yet there, and so on.  With them, what
    could not be looked at. -/
def expand (root : String) (patterns : List String) :
    Except Problem (List Spot × List Problem) := do
  let listings ← patterns.mapM (disk.listing root)
  let files := listings.flatMap fun entries => (disk.filesIn entries).mergeSort Spot.le
  pure (Spot.firsts files, listings.flatMap (·.filterMap problem?))

end Disk

end DeclAtlas
