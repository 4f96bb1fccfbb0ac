import DeclAtlas.Pattern.Reader

/-!
# Matching patterns

A pattern is compiled to a program of small instructions, which is run on the characters of a
text.  Where an instruction leaves a choice, its targets are tried in their order; an
instruction that failed at some place of the text is not tried there again.  So the first match
found is the leftmost one, and among the matches at that place the one that the pattern
prefers: earlier alternatives over later ones, more repetitions over fewer if a loop is greedy.
-/

namespace DeclAtlas.Pattern

/-- An instruction; targets are indices of instructions. -/
inductive Instruction
  /-- Takes a character of the set and goes on. -/
  | char (k : CharClass) (next : Nat)
  /-- Goes on if the assertion holds. -/
  | assertion (a : Assertion) (next : Nat)
  /-- Remembers the place under a number. -/
  | save (slot : Nat) (next : Nat)
  /-- Tries the targets in turn. -/
  | split (targets : List Nat)
  | accept
deriving Repr, Inhabited

/-- A program; the match begins at its entry. -/
abbrev Program := Array Instruction

-- ── Compiling ────────────────────────────────────────────────────────────────────

/-- The order in which a loop tries to go on inside and to leave. -/
def branch (greedy : Bool) (inside outside : Nat) : Instruction :=
  .split (if greedy then [inside, outside] else [outside, inside])

/-- Compiles `n` copies by `compile`, the last of which goes on at `next`.  Gives the entry. -/
def copies (compile : Nat → Program → Nat × Program) : Nat → Nat → Program → Nat × Program
  | 0, next, p => (next, p)
  | n + 1, next, p =>
    let (entry, p) := copies compile n next p
    compile entry p

/-- Compiles `n` copies that may each be left to `exit`. -/
def optionalCopies (compile : Nat → Program → Nat × Program) (greedy : Bool) (exit : Nat) :
    Nat → Program → Nat × Program
  | 0, p => (exit, p)
  | n + 1, p =>
    let (next, p) := optionalCopies compile greedy exit n p
    let (inside, p) := compile next p
    (p.size, p.push (branch greedy inside exit))

/-- Compiles an expression that goes on at `next`.  Gives the entry and the longer program.

    A loop that may run forever goes back through a branch, whose place is taken before the
    loop is compiled.  If its expression can match the empty text, the loop is one round at
    least that may be left out as a whole: this keeps the order of preference. -/
def compile : Regex → Nat → Program → Nat × Program
  | .empty, next, p => (next, p)
  | .char k, next, p => (p.size, p.push (.char k next))
  | .assertion a, next, p => (p.size, p.push (.assertion a next))
  | .seq e f, next, p =>
    let (middle, p) := compile f next p
    compile e middle p
  | .alt e f, next, p =>
    let (first, p) := compile e next p
    let (second, p) := compile f next p
    (p.size, p.push (.split [first, second]))
  | .group i e, next, p =>
    let close := p.size
    let p := p.push (.save (2 * i + 1) next)
    let (inner, p) := compile e close p
    (p.size, p.push (.save (2 * i) inner))
  | .loop e min none greedy, next, p =>
    let back := p.size
    let p := p.push .accept
    let (inside, p) := compile e back p
    let p := p.setIfInBounds back (branch greedy inside next)
    if min = 0 then
      if e.consumes then (back, p)
      else (p.size, p.push (branch greedy inside next))
    else copies (compile e) (min - 1) inside p
  | .loop e min (some max) greedy, next, p =>
    let (optional, p) := optionalCopies (compile e) greedy next (max - min) p
    copies (compile e) min optional p

-- ── Running ──────────────────────────────────────────────────────────────────────

/-- An attempt that waits to be carried on: an instruction, the place in the text, the
    character before it, the characters behind it, and what was remembered. -/
structure Attempt where
  at_ : Nat
  place : Nat
  before : Option Char
  ahead : List Char
  saved : List (Nat × Nat)

/-- Carries on the first attempt that waits.  `seen` marks the pairs of an instruction and a
    place that have been tried, in rows of `width` places. -/
def runAttempts (p : Program) (width : Nat) : Nat → List Attempt → Array Bool →
    Option (List (Nat × Nat))
  | 0, _, _ => none
  | _, [], _ => none
  | n + 1, t :: waiting, seen =>
    let mark := t.at_ * width + t.place
    if seen.getD mark true then runAttempts p width n waiting seen
    else
      let seen := seen.setIfInBounds mark true
      match p.getD t.at_ .accept with
      | .accept => some t.saved
      | .char k next =>
        match t.ahead with
        | c :: rest =>
          if k.contains c then
            runAttempts p width n (⟨next, t.place + 1, some c, rest, t.saved⟩ :: waiting) seen
          else runAttempts p width n waiting seen
        | [] => runAttempts p width n waiting seen
      | .assertion a next =>
        if a.holds t.before t.ahead.head? then
          runAttempts p width n ({ t with at_ := next } :: waiting) seen
        else runAttempts p width n waiting seen
      | .save slot next =>
        let saved := (slot, t.place) :: t.saved
        runAttempts p width n ({ t with at_ := next, saved } :: waiting) seen
      | .split targets =>
        runAttempts p width n (targets.map (fun k => { t with at_ := k }) ++ waiting) seen

/-- The number of steps after which every instruction has been tried at every place. -/
def runBudget (p : Program) (width : Nat) : Nat :=
  let edges := p.foldl (fun n i =>
    match i with
    | .split targets => n + targets.length
    | _ => n + 1) 0
  (edges + 1) * (width + 1) + 1

/-- A compiled pattern. -/
structure Compiled where
  program : Program
  entry : Nat
  groupNames : List (String × Nat)
deriving Repr

/-- The largest weight that a pattern may have. -/
def maxWeight : Nat := 10485760

/-- What every pattern weighs besides its expression. -/
def frameWeight : Nat := 104

/-- Compiles a pattern.  The whole match is remembered as group 0. -/
def Compiled.ofString (text : String) : Except PatternError Compiled := do
  let parsed ← read text
  let whole := Regex.group 0 parsed.regex
  if maxWeight < whole.weight + frameWeight then .error .tooLarge
  else
    let (entry, program) := compile whole 0 #[.accept]
    pure ⟨program, entry, parsed.groupNames⟩

/-- The groups of a match: for each number that took part in it, where its text starts and
    ends. -/
structure Match where
  saved : List (Nat × Nat)

/-- Where the text of a group starts and ends. -/
def Match.range? (m : Match) (group : Nat) : Option (Nat × Nat) := do
  let start ← m.saved.lookup (2 * group)
  let stop ← m.saved.lookup (2 * group + 1)
  pure (start, stop)

/-- The match of a pattern that begins at a place. -/
def Compiled.matchAt (r : Compiled) (width place : Nat) (before : Option Char)
    (ahead : List Char) : Option Match :=
  let seen := Array.replicate (r.program.size * width) false
  (runAttempts r.program width (runBudget r.program width)
    [⟨r.entry, place, before, ahead, []⟩] seen).map Match.mk

/-- The first match of a pattern at or behind a place. -/
def Compiled.matchFrom (r : Compiled) (width place : Nat) (before : Option Char) :
    List Char → Option Match
  | [] => r.matchAt width place before []
  | c :: rest =>
    r.matchAt width place before (c :: rest) <|> r.matchFrom width (place + 1) (some c) rest

/-- The first match of a pattern in a text. -/
def Compiled.firstMatch (r : Compiled) (text : List Char) : Option Match :=
  r.matchFrom (text.length + 1) 0 none text

/-!
## Replacing what a pattern matches

A replacement is text with references to groups: a dollar sign and a name, which may stand in
braces.  A name without braces is as long as it can be.  Two dollar signs stand for one, and a
dollar sign that begins no reference stands for itself.
-/

/-- The number that a name is, if it is one: decimal digits, with an optional plus sign. -/
def groupNumber? (name : List Char) : Option Nat :=
  let digits := match name with
    | '+' :: rest => rest
    | _ => name
  if digits ≠ [] ∧ digits.all Char.isDigit then
    some (digits.foldl (fun n d => n * 10 + (d.toNat - '0'.toNat)) 0)
  else none

/-- The group that a reference means. -/
def Compiled.group? (r : Compiled) (name : List Char) : Option Nat :=
  match groupNumber? name with
  | some n => some n
  | none => r.groupNames.lookup (String.ofList name)

/-- What a group matched; nothing if there is no such group or it took no part in the match. -/
def Match.text (m : Match) (text : List Char) (group : Option Nat) : List Char :=
  match group.bind m.range? with
  | some (start, stop) => (text.drop start).take (stop - start)
  | none => []

/-- Characters of a name without braces. -/
def isReferenceChar (c : Char) : Bool := c.isAlphanum || c == '_'

/-- The reference behind a dollar sign, if one is there: its name and what follows it. -/
def reference? (cs : List Char) : Option (List Char × List Char) :=
  match cs with
  | '\x7b' :: rest =>
    match rest.dropWhile (· ≠ '\x7d') with
    | _ :: after => some (rest.takeWhile (· ≠ '\x7d'), after)
    | [] => none
  | _ =>
    match cs.takeWhile isReferenceChar with
    | [] => none
    | name => some (name, cs.dropWhile isReferenceChar)

/-- A replacement with its references replaced by what the groups matched in `text`. -/
def expand (r : Compiled) (m : Match) (text : List Char) : Nat → List Char → List Char
  | 0, cs => cs
  | _, [] => []
  | n + 1, c :: rest =>
    if c = '$' then
      match rest with
      | '$' :: rest => '$' :: expand r m text n rest
      | _ =>
        match reference? rest with
        | some (name, rest) => m.text text (r.group? name) ++ expand r m text n rest
        | none => '$' :: expand r m text n rest
    else c :: expand r m text n rest

/-- A text with the first match of a pattern replaced. -/
def Compiled.replaceFirst (r : Compiled) (replacement text : String) : String :=
  let cs := text.toList
  match r.firstMatch cs with
  | none => text
  | some m =>
    match m.range? 0 with
    | none => text
    | some (start, stop) =>
      let new := expand r m cs replacement.length replacement.toList
      String.ofList (cs.take start ++ new ++ cs.drop stop)

end DeclAtlas.Pattern

namespace DeclAtlas

/-!
## Path mappings

Rules that remap import targets: a pattern and a replacement for its first match.  Rules are
applied one after the other, each to what the one before has made of the path.
-/

/-- A mapping as it is written. -/
structure MappingRule where
  pattern : String
  replacement : String
deriving DecidableEq, Repr, Inhabited

/-- A mapping whose pattern has been compiled. -/
structure PathMapping where
  rule : MappingRule
  compiled : Pattern.Compiled

namespace PathMapping

/-- Compiles a mapping. -/
def ofRule (rule : MappingRule) : Except Pattern.PatternError PathMapping := do
  let compiled ← Pattern.Compiled.ofString rule.pattern
  pure ⟨rule, compiled⟩

/-- The path that one mapping makes of a path. -/
def apply (m : PathMapping) (path : String) : String :=
  m.compiled.replaceFirst m.rule.replacement path

/-- The path that several mappings make of a path. -/
def applyAll (ms : List PathMapping) (path : String) : String :=
  ms.foldl (fun path m => m.apply path) path

end PathMapping

end DeclAtlas
