import DeclAtlas.CommandLine.Run

/-!
# The program

The command line.  It takes down as much of the file system as the settings and their patterns
can reach, leaves the answer to `CommandLine.run`, and prints what that gives.
-/

namespace DeclAtlas.Main

/-- The file or directory at a path, with all that is in it.  Links to directories are not
    followed further down. -/
partial def survey (path : String) : IO FileTree := do
  let file := (← IO.currentDir) / path
  if ← file.isDir then
    let entries ← (← file.readDir).toList.filterMapM fun entry => do
      let isLink := (← entry.path.symlinkMetadata).type == .symlink
      if isLink && (← entry.path.isDir) then return none
      return some (entry.fileName.toList, ← survey entry.path.toString)
    return .directory entries
  else return .file (String.fromUTF8? (← IO.FS.readBinFile file))

/-- Puts what stands at a place of the file system into a tree. -/
def takeDown (tree : FileTree) (place : List FileName) : IO FileTree := do
  let path := String.ofList (Settings.pathOf place)
  if ← ((← IO.currentDir) / path).pathExists then return (← survey path).insertAt place tree
  else return tree

/-- What marks the beginning of a source tree, from a place upward. -/
def takeDownMarkers (start : List FileName) : IO FileTree := do
  let places := (Settings.upward start).flatMap fun place =>
    Settings.markers.map fun name => place ++ [name]
  places.foldlM (fun tree place => do
    let path := String.ofList (Settings.pathOf place)
    let file := (← IO.currentDir) / path
    if ← file.isDir then return FileTree.empty.insertAt place tree else takeDown tree place) .empty

/-- The part of the file system that a command can reach. -/
def reachable (cwd : String) (command : CommandLine.Command) : IO FileTree := do
  match command with
  | .ask given _ =>
    let tree ← takeDownMarkers (Settings.start cwd given.root)
    match Settings.resolve tree cwd given with
    | .error _ => return tree
    | .ok s =>
      let patterns := (s.sources ++ s.typings).filterMap fun pattern =>
        Glob.Pattern.ofChars? (FilePath.append s.root.toList pattern.toList)
      (patterns.map Glob.Pattern.base).foldlM takeDown tree
  | _ => return .empty

end DeclAtlas.Main

open DeclAtlas in
def main (args : List String) : IO UInt32 := do
  let cwd := (← IO.currentDir).toString
  let colors := (← IO.getEnv "NO_COLOR").isNone
  let tree ← match CommandLine.Command.ofArguments args with
    | .ok command => Main.reachable cwd command
    | .error _ => pure .empty
  let outcome := CommandLine.run ⟨tree, cwd, colors⟩ args
  IO.print outcome.output
  IO.eprint outcome.notices
  return UInt32.ofNat outcome.code
