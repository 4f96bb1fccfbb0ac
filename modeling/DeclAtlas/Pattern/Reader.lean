import DeclAtlas.Pattern.Regex

/-!
# Reading patterns

The written form of regular expressions.  A pattern is read from front to back with a stack of
the groups that are open; `PatternError` lists why a pattern may be refused.

Every step of the reader takes at least one character, so the number of characters bounds the
number of steps.  Along with the expression the reader counts how deep the pattern nests, which
is bounded.
-/

namespace DeclAtlas.Pattern

/-- Why a text is no pattern. -/
inductive PatternError
  | unopenedGroup
  | unclosedGroup
  | unclosedClass
  | nothingToRepeat
  | badRepetition
  | badGroupName
  | duplicateGroupName
  | lookAround
  | badFlags
  | badEscape
  | badCodePoint
  | unknownProperty
  | badRange
  | notText
  | tooDeep
  | tooLarge
deriving DecidableEq, Repr

/-- Modes that flags switch on and off. -/
structure Flags where
  anyCase : Bool := false
  multiLine : Bool := false
  dotAll : Bool := false
  swapGreed : Bool := false
  unicode : Bool := true
  anyLineEnd : Bool := false
  verbose : Bool := false
deriving DecidableEq, Repr, Inhabited

namespace Flags

/-- A set that was written as such, before it is negated: with the variants of its characters, if
    case does not matter.  Without Unicode only ASCII letters have variants. -/
def folded (f : Flags) (k : CharClass) : CharClass :=
  if f.anyCase then if f.unicode then .anyCase k else .anyAsciiCase k else k

/-- The set of a single character. -/
def literal (f : Flags) (c : Char) : CharClass := f.folded (.single c)

/-- A bracket expression may hold the character; without Unicode it holds ASCII characters only. -/
def allows (f : Flags) (c : Char) : Bool := f.unicode || c.toNat < 128

/-- The characters of words. -/
def word (f : Flags) : CharClass := if f.unicode then .word else .asciiWord

/-- The set that a point stands for. -/
def dot (f : Flags) : CharClass :=
  if f.dotAll then .compl .empty
  else if f.anyLineEnd then .compl (.ofString "\r\n")
  else .compl (.ofString "\n")

/-- A set that may hold characters outside ASCII, which without Unicode would be single
    bytes. -/
def complement (f : Flags) (k : CharClass) : Except PatternError CharClass :=
  if f.unicode then .ok (.compl k) else .error .notText

end Flags

-- ── Numbers ──────────────────────────────────────────────────────────────────────

/-- The value of a hexadecimal digit. -/
def hexDigit? (c : Char) : Option Nat :=
  if c.isDigit then some (c.toNat - '0'.toNat)
  else if 'a' ≤ c ∧ c ≤ 'f' then some (c.toNat - 'a'.toNat + 10)
  else if 'A' ≤ c ∧ c ≤ 'F' then some (c.toNat - 'A'.toNat + 10)
  else none

/-- White space around the numbers of a repetition, and between the parts of a verbose pattern. -/
def isPatternSpace (c : Char) : Bool := CharClass.space.contains c

/-- Leaves out blanks and comments of a verbose pattern. -/
def skipVerbose (f : Flags) (cs : List Char) : List Char :=
  if f.verbose then go cs false else cs
where
  go : List Char → Bool → List Char
  | [], _ => []
  | c :: cs, true => go cs (c ≠ '\n')
  | c :: cs, false =>
    if isPatternSpace c then go cs false
    else if c = '#' then go cs true
    else c :: cs

/-- A text through the closing brace, and what follows.  The text of a verbose pattern is without
    blanks and comments. -/
def readBraced (f : Flags) (cs : List Char) : Option (List Char × List Char) :=
  go cs false
where
  go : List Char → Bool → Option (List Char × List Char)
  | [], _ => none
  | c :: cs, true => go cs (c ≠ '\n')
  | c :: cs, false =>
    if f.verbose ∧ isPatternSpace c then go cs false
    else if f.verbose ∧ c = '#' then go cs true
    else if c = '\x7d' then some ([], cs)
    else (go cs false).map fun (text, rest) => (c :: text, rest)

/-- The first `n` characters, and what follows. -/
def readFixed (f : Flags) : Nat → List Char → Option (List Char × List Char)
  | 0, cs => some ([], cs)
  | n + 1, cs =>
    match skipVerbose f cs with
    | [] => none
    | c :: rest => (readFixed f n rest).map fun (text, rest) => (c :: text, rest)

/-- The character whose code point the digits give. -/
def hexChar (digits : List Char) : Except PatternError Char :=
  match digits.mapM hexDigit? with
  | none => .error .badCodePoint
  | some ds =>
    let n := ds.foldl (fun n d => n * 16 + d) 0
    if ds ≠ [] ∧ (n < 0xD800 ∨ (0xDFFF < n ∧ n ≤ 0x10FFFF)) then .ok (Char.ofNat n)
    else .error .badCodePoint

/-- A decimal number between blanks. -/
def decimal? (cs : List Char) : Option Nat :=
  let digits := ((cs.dropWhile isPatternSpace).reverse.dropWhile isPatternSpace).reverse
  if digits ≠ [] ∧ digits.all Char.isDigit then
    some (digits.foldl (fun n d => n * 10 + (d.toNat - '0'.toNat)) 0)
  else none

/-- The largest number of repetitions that can be asked for. -/
def maxRepetition : Nat := 4294967295

/-- The counts of a repetition between its braces: one number, or a comma with a number in front
    of it and perhaps a number behind it. -/
def counts? (text : List Char) : Option (Nat × Option Nat) := do
  let min ← decimal? (text.takeWhile (· ≠ ','))
  let max ← match text.dropWhile (· ≠ ',') with
    | [] => pure (some min)
    | [_] => pure none
    | _ :: more => (decimal? more).map some
  if min ≤ max.getD min ∧ max.getD min ≤ maxRepetition then pure (min, max) else none

/-- The counts of a repetition behind its opening brace. -/
def readCounts (f : Flags) (cs : List Char) :
    Except PatternError (Nat × Option Nat × List Char) :=
  match readBraced f cs with
  | none => .error .badRepetition
  | some (text, rest) =>
    match counts? text with
    | none => .error .badRepetition
    | some (min, max) => .ok (min, max, rest)

-- ── Depth ────────────────────────────────────────────────────────────────────────

/-- How deep a row of parts nests, given the depths of the parts: two parts or more are one level
    above the deepest of them. -/
def rowDepth : List Nat → Nat
  | [] => 0
  | [d] => d
  | d :: ds => ds.foldl Nat.max d + 1

/-- How deep a pattern may nest. -/
def maxDepth : Nat := 250

-- ── Escapes ──────────────────────────────────────────────────────────────────────

/-- What a backslash and what follows it stand for. -/
inductive Escape
  | char (c : Char)
  | set (k : CharClass)
  | assertion (a : Assertion)

/-- ASCII characters that a backslash may stand in front of without a meaning of its own. -/
def isEscapable (c : Char) : Bool :=
  c.toNat < 128 && !c.isAlphanum && c ≠ '<' && c ≠ '>'

/-- A property of characters behind `\p`: one letter, or a name in braces. -/
def readProperty (f : Flags) (cs : List Char) : Except PatternError (CharClass × List Char) :=
  if !f.unicode then .error .notText
  else
  match skipVerbose f cs with
  | [] => .error .badEscape
  | '\x7b' :: rest =>
    match readBraced f rest with
    | none => .error .badEscape
    | some (name, rest) =>
      match CharClass.property? name with
      | some k => .ok (k, rest)
      | none => .error .unknownProperty
  | c :: rest =>
    match CharClass.named? (CharClass.propertyKey [c]) with
    | some k => .ok (k, rest)
    | none => .error .unknownProperty

/-- A name of a word boundary in braces behind `\b`, if there is one. -/
def readBoundary (f : Flags) (cs : List Char) : Except PatternError (Assertion × List Char) :=
  match cs with
  | '\x7b' :: rest =>
    match skipVerbose f rest with
    | [] => .error .badEscape
    | c :: _ =>
      if c.isAlpha || c == '-' then
        match readBraced f rest with
        | none => .error .badEscape
        | some (name, after) =>
          match String.ofList name with
          | "start" => .ok (.wordStart f.word, after)
          | "end" => .ok (.wordEnd f.word, after)
          | "start-half" => .ok (.notAfterWord f.word, after)
          | "end-half" => .ok (.notBeforeWord f.word, after)
          | _ => .error .badEscape
      else .ok (.boundary f.word, cs)
  | _ => .ok (.boundary f.word, cs)

/-- A set of characters that a letter stands for, and the complement for its capital. -/
def readSet (f : Flags) (k : CharClass) (negated : Bool) (rest : List Char) :
    Except PatternError (Escape × List Char) := do
  let k ← if negated then f.complement k else pure k
  pure (.set k, rest)

/-- A character given by its code point behind `\x`, `\u` or `\U`: by `width` digits, or by any
    number of them in braces.  Without Unicode two digits give a byte, which must be in ASCII. -/
def readCodePoint (f : Flags) (width : Nat) (cs : List Char) :
    Except PatternError (Escape × List Char) :=
  match skipVerbose f cs with
  | '\x7b' :: rest =>
    match readBraced f rest with
    | none => .error .badCodePoint
    | some (digits, rest) => do
      let c ← hexChar digits
      pure (.char c, rest)
  | cs =>
    match readFixed f width cs with
    | none => .error .badCodePoint
    | some (digits, rest) => do
      let c ← hexChar digits
      if width = 2 ∧ !f.allows c then .error .notText else pure (.char c, rest)

/-- What follows a backslash. -/
def readEscape (f : Flags) : List Char → Except PatternError (Escape × List Char)
  | [] => .error .badEscape
  | c :: rest =>
    let digit := if f.unicode then CharClass.digit else .asciiDigit
    let space := if f.unicode then CharClass.space else .asciiSpace
    match c with
    | 'd' => readSet f digit false rest
    | 'D' => readSet f digit true rest
    | 's' => readSet f space false rest
    | 'S' => readSet f space true rest
    | 'w' => readSet f f.word false rest
    | 'W' => readSet f f.word true rest
    | 'p' => do
      let (k, rest) ← readProperty f rest
      pure (.set (f.folded k), rest)
    | 'P' => do
      let (k, rest) ← readProperty f rest
      readSet f (f.folded k) true rest
    | 'x' => readCodePoint f 2 rest
    | 'u' => readCodePoint f 4 rest
    | 'U' => readCodePoint f 8 rest
    | 'a' => .ok (.char '\x07', rest)
    | 'f' => .ok (.char '\x0c', rest)
    | 't' => .ok (.char '\t', rest)
    | 'n' => .ok (.char '\n', rest)
    | 'r' => .ok (.char '\r', rest)
    | 'v' => .ok (.char '\x0b', rest)
    | 'A' => .ok (.assertion .textStart, rest)
    | 'z' => .ok (.assertion .textEnd, rest)
    | 'b' => do
      let (a, rest) ← readBoundary f rest
      pure (.assertion a, rest)
    | 'B' => .ok (.assertion (.noBoundary f.word), rest)
    | '<' => .ok (.assertion (.wordStart f.word), rest)
    | '>' => .ok (.assertion (.wordEnd f.word), rest)
    | c => if isEscapable c then .ok (.char c, rest) else .error .badEscape

-- ── Bracket expressions ──────────────────────────────────────────────────────────

/-- Operators between the parts of a bracket expression. -/
inductive SetOp
  | inter
  | diff
  | symmDiff

def SetOp.apply : SetOp → CharClass → CharClass → CharClass
  | inter => .inter
  | diff => .diff
  | symmDiff => .symmDiff

/-- The parts of a bracket expression in front of an operator. -/
structure LeftSide where
  set : CharClass
  op : SetOp
  depth : Nat

/-- A bracket expression that is being read. -/
structure OpenClass where
  negated : Bool
  /-- The parts in front of the last operator, with that operator. -/
  before : Option LeftSide
  /-- The items behind it. -/
  items : CharClass
  /-- How deep each of them nests. -/
  depths : List Nat

namespace OpenClass

/-- Adds an item. -/
def add (o : OpenClass) (k : CharClass) (depth : Nat) : OpenClass :=
  { o with items := .union o.items k, depths := depth :: o.depths }

/-- The parts so far as one set. -/
def value (o : OpenClass) : CharClass :=
  match o.before with
  | some left => left.op.apply left.set o.items
  | none => o.items

/-- How deep the parts so far nest. -/
def depth (o : OpenClass) : Nat :=
  match o.before with
  | some left => Nat.max left.depth (rowDepth o.depths) + 1
  | none => rowDepth o.depths

def operator (o : OpenClass) (op : SetOp) : OpenClass :=
  { o with before := some ⟨o.value, op, o.depth⟩, items := .empty, depths := [] }

end OpenClass

/-- A name between `[:` and `:]`, if the text behind `[` is one. -/
def readPosix (f : Flags) (cs : List Char) :
    Except PatternError (Option (CharClass × List Char)) :=
  match cs with
  | ':' :: rest =>
    let negated := rest.head? = some '^'
    let rest := if negated then rest.drop 1 else rest
    match rest.dropWhile (· ≠ ':') with
    | ':' :: ']' :: after =>
      match CharClass.posix? (String.ofList (rest.takeWhile (· ≠ ':'))) with
      | some k =>
        if negated then do
          let k ← f.complement (f.folded k)
          pure (some (k, after))
        else .ok (some (f.folded k, after))
      | none => .ok none
    | _ => .ok none
  | _ => .ok none

/-- One character or escape of a bracket expression. -/
def readClassItem (f : Flags) : List Char → Except PatternError (Escape × List Char)
  | [] => .error .unclosedClass
  | '\\' :: rest => readEscape f rest
  | c :: rest => .ok (.char c, rest)

/-- The set of one item. -/
def itemSet (f : Flags) : Escape → Except PatternError CharClass
  | .char c => if f.allows c then .ok (f.literal c) else .error .notText
  | .set k => .ok k
  | .assertion _ => .error .badEscape

/-- The character behind a hyphen, behind blanks of a verbose pattern.  In front of a comment it
    is the first character of that. -/
def behindHyphen (f : Flags) (cs : List Char) : Option Char :=
  if f.verbose then
    match cs.dropWhile isPatternSpace with
    | '#' :: comment => (comment.dropWhile isPatternSpace).head?
    | cs => cs.head?
  else cs.head?

/-- An item of a bracket expression, or a range between two characters.  A hyphen in front of
    a bracket or another hyphen makes no range. -/
def readClassRange (f : Flags) (cs : List Char) :
    Except PatternError (CharClass × List Char) := do
  let (first, rest) ← readClassItem f cs
  match skipVerbose f rest with
  | [] => .error .unclosedClass
  | '-' :: behind =>
    if behindHyphen f behind = some ']' ∨ behindHyphen f behind = some '-' then
      let k ← itemSet f first
      pure (k, '-' :: behind)
    else
      let (last, rest) ← readClassItem f (skipVerbose f behind)
      match first, last with
      | .char a, .char b =>
        if !(f.allows a && f.allows b) then .error .notText
        else if a ≤ b then pure (f.folded (.ranges [(a.toNat, b.toNat)]), rest)
        else .error .badRange
      | _, _ => .error .badRange
  | rest =>
    let k ← itemSet f first
    pure (k, rest)

/-- The hyphens that may stand at the front of a bracket expression. -/
def readHyphens (f : Flags) : Nat → OpenClass → List Char → OpenClass × List Char
  | 0, o, cs => (o, cs)
  | n + 1, o, cs =>
    match skipVerbose f cs with
    | '-' :: rest => readHyphens f n (o.add (f.literal '-') 0) rest
    | cs => (o, cs)

/-- The front of a bracket expression: hyphens, or the closing bracket, which stands for itself if
    it is the first of all. -/
def readClassFront (f : Flags) (o : OpenClass) (cs : List Char) : OpenClass × List Char :=
  match readHyphens f cs.length o cs with
  | (o, ']' :: rest) => if o.depths = [] then (o.add (f.literal ']') 0, rest) else (o, ']' :: rest)
  | front => front

/-- Opens a bracket expression behind its bracket. -/
def openClass (f : Flags) (cs : List Char) : OpenClass × List Char :=
  let cs := skipVerbose f cs
  let negated := cs.head? = some '^'
  let cs := if negated then skipVerbose f (cs.drop 1) else cs
  readClassFront f ⟨negated, none, .empty, []⟩ cs

/-- Reads bracket expressions to the end of the outermost one, which are open in the list, the
    innermost first.  Gives the set, how deep it nests and what is left. -/
def readClass (f : Flags) : Nat → List OpenClass → List Char →
    Except PatternError (CharClass × Nat × List Char)
  | 0, _, _ => .error .unclosedClass
  | _, [], _ => .error .unclosedClass
  | n + 1, o :: outer, cs =>
    match skipVerbose f cs with
    | [] => .error .unclosedClass
    | ']' :: rest => do
      let k ← if o.negated then f.complement o.value else pure o.value
      match outer with
      | [] => pure (k, o.depth + 1, rest)
      | p :: outer => readClass f n (p.add k (o.depth + 1) :: outer) rest
    | '[' :: rest => do
      match ← readPosix f rest with
      | some (k, rest) => readClass f n (o.add k 0 :: outer) rest
      | none =>
        let (inner, rest) := openClass f rest
        readClass f n (inner :: o :: outer) rest
    | '&' :: '&' :: rest => readClass f n (o.operator .inter :: outer) rest
    | '-' :: '-' :: rest => readClass f n (o.operator .diff :: outer) rest
    | '~' :: '~' :: rest => readClass f n (o.operator .symmDiff :: outer) rest
    | cs => do
      let (k, rest) ← readClassRange f cs
      readClass f n (o.add k 0 :: outer) rest

-- ── Groups and flags ─────────────────────────────────────────────────────────────

/-- Sets the mode of a flag. -/
def Flags.set? (f : Flags) (c : Char) (on : Bool) : Option Flags :=
  match c with
  | 'i' => some { f with anyCase := on }
  | 'm' => some { f with multiLine := on }
  | 's' => some { f with dotAll := on }
  | 'U' => some { f with swapGreed := on }
  | 'u' => some { f with unicode := on }
  | 'R' => some { f with anyLineEnd := on }
  | 'x' => some { f with verbose := on }
  | _ => none

/-- Flags up to the colon or parenthesis that ends them: the modes, whether there were any flags,
    and what ends them.  Each flag may stand once, and flags behind a hyphen are switched
    off. -/
def readFlags (f : Flags) (used : List Char) (on : Bool) (dangling : Bool) :
    List Char → Except PatternError (Flags × Bool × Char × List Char)
  | [] => .error .badFlags
  | c :: rest =>
    if c = ':' ∨ c = ')' then
      if dangling then .error .badFlags else .ok (f, used ≠ [], c, rest)
    else if c = '-' then
      if on then readFlags f used false true rest else .error .badFlags
    else if used.contains c then .error .badFlags
    else
      match f.set? c on with
      | some f => readFlags f (c :: used) on false rest
      | none => .error .badFlags

/-- Letters, digits and some signs may stand in the name of a group, and no digit at its
    front. -/
def isGroupNameChar (first : Bool) (c : Char) : Bool :=
  c = '_' || Text.inRanges Text.alphabeticRanges c.toNat ||
    (!first && (c = '.' || c = '[' || c = ']' || Text.inRanges Text.numberRanges c.toNat))

/-- The name of a group, through the closing `>`. -/
def readGroupName (cs : List Char) : Except PatternError (String × List Char) :=
  let name := cs.takeWhile (· ≠ '>')
  match cs.dropWhile (· ≠ '>'), name with
  | _ :: rest, first :: more =>
    if isGroupNameChar true first && more.all (isGroupNameChar false) then
      .ok (String.ofList name, rest)
    else .error .badGroupName
  | _, _ => .error .badGroupName

/-- A part of a pattern, and how deep it nests. -/
structure Part where
  regex : Regex
  depth : Nat
deriving Inhabited

/-- An item of an alternative. -/
inductive Item
  | part (p : Part)
  /-- Flags, which cannot be repeated. -/
  | flags

namespace Item

def depth : Item → Nat
  | part p => p.depth
  | flags => 0

def regex? : Item → Option Regex
  | part p => some p.regex
  | flags => none

end Item

/-- A group that is open. -/
structure OpenGroup where
  /-- The number of the group, if it is remembered. -/
  index : Option Nat
  /-- The modes outside the group. -/
  flags : Flags
  /-- The alternatives and items read before the group, in reverse. -/
  alternatives : List Part
  items : List Item

/-- The state of the reader. -/
structure Reading where
  flags : Flags
  /-- Finished alternatives of the innermost group, in reverse. -/
  alternatives : List Part
  /-- Items of its current alternative, in reverse. -/
  items : List Item
  groups : List OpenGroup
  /-- The number of groups that are remembered. -/
  count : Nat
  names : List (String × Nat)

namespace Reading

def start : Reading := ⟨{}, [], [], [], 0, []⟩

/-- Adds an item to the current alternative. -/
def add (s : Reading) (e : Regex) (depth : Nat) : Reading :=
  { s with items := .part ⟨e, depth⟩ :: s.items }

/-- The current alternative. -/
def current (s : Reading) : Part where
  regex := .sequence (s.items.reverse.filterMap Item.regex?)
  depth := rowDepth (s.items.map Item.depth)

/-- All alternatives of the innermost group. -/
def value (s : Reading) : Part :=
  let parts := (s.current :: s.alternatives).reverse
  ⟨.choice (parts.map Part.regex), rowDepth (parts.map Part.depth)⟩

/-- Begins the next alternative. -/
def nextAlternative (s : Reading) : Reading :=
  { s with alternatives := s.current :: s.alternatives, items := [] }

/-- Opens a group with the given modes inside. -/
def openGroup (s : Reading) (index : Option Nat) (inner : Flags) : Reading :=
  { s with
    flags := inner, alternatives := [], items := []
    groups := ⟨index, s.flags, s.alternatives, s.items⟩ :: s.groups }

/-- Opens a group that is remembered. -/
def openCapture (s : Reading) (name : Option String) : Reading :=
  let index := s.count + 1
  let s := { s with count := index, names := s.names ++ (name.map (·, index)).toList }
  s.openGroup (some index) s.flags

/-- Closes the innermost group. -/
def closeGroup (s : Reading) : Except PatternError Reading :=
  match s.groups with
  | [] => .error .unopenedGroup
  | g :: outer =>
    let e := match g.index with
      | some i => Regex.group i s.value.regex
      | none => s.value.regex
    .ok { s with
      flags := g.flags, alternatives := g.alternatives
      items := .part ⟨e, s.value.depth + 1⟩ :: g.items, groups := outer }

/-- Repeats the last item. -/
def repeatLast (s : Reading) (min : Nat) (max : Option Nat) (greedy : Bool) :
    Except PatternError Reading :=
  match s.items with
  | .part p :: rest =>
    let e := Regex.repeated p.regex min max (greedy != s.flags.swapGreed)
    .ok { s with items := .part ⟨e, p.depth + 1⟩ :: rest }
  | _ => .error .nothingToRepeat

/-- Opens what an opening parenthesis begins. -/
def readGroup (s : Reading) (cs : List Char) : Except PatternError (Reading × List Char) :=
  match cs with
  | '?' :: '=' :: _ | '?' :: '!' :: _ | '?' :: '<' :: '=' :: _ | '?' :: '<' :: '!' :: _ =>
    .error .lookAround
  | '?' :: 'P' :: '<' :: rest | '?' :: '<' :: rest => do
    let (name, rest) ← readGroupName rest
    if s.names.any (·.1 == name) then .error .duplicateGroupName
    else pure (s.openCapture (some name), rest)
  | '?' :: rest => do
    let (flags, any, last, rest) ← readFlags s.flags [] true false rest
    if last = ':' then pure (s.openGroup none flags, rest)
    else if any then pure ({ s with flags, items := .flags :: s.items }, rest)
    else .error .nothingToRepeat
  | _ => .ok (s.openCapture none, cs)

/-- Takes the question mark that makes a repetition lazy. -/
def readGreedy : List Char → Bool × List Char
  | '?' :: rest => (false, rest)
  | cs => (true, cs)

/-- A repetition of the last item. -/
def readRepetition (s : Reading) (min : Nat) (max : Option Nat) (cs : List Char) :
    Except PatternError (Reading × List Char) := do
  let (greedy, rest) := readGreedy cs
  let s ← s.repeatLast min max greedy
  pure (s, rest)

/-- One step of the reader. -/
def step (s : Reading) (c : Char) (rest : List Char) :
    Except PatternError (Reading × List Char) :=
  match c with
  | '(' => s.readGroup (skipVerbose s.flags rest)
  | ')' => do
    let s ← s.closeGroup
    pure (s, rest)
  | '|' => .ok (s.nextAlternative, rest)
  | '[' => do
    let (o, rest) := openClass s.flags rest
    let (k, depth, rest) ← readClass s.flags (rest.length + 1) [o] rest
    pure (s.add (.char k) depth, rest)
  | '?' => s.readRepetition 0 (some 1) rest
  | '*' => s.readRepetition 0 none rest
  | '+' => s.readRepetition 1 none rest
  | '\x7b' =>
    match s.items with
    | .part _ :: _ => do
      let (min, max, rest) ← readCounts s.flags rest
      s.readRepetition min max (skipVerbose s.flags rest)
    | _ => .error .nothingToRepeat
  | '\\' => do
    let (e, rest) ← readEscape s.flags rest
    match e with
    | .char c => pure (s.add (.char (s.flags.literal c)) 0, rest)
    | .set k => pure (s.add (.char k) 0, rest)
    | .assertion a => pure (s.add (.assertion a) 0, rest)
  | '.' =>
    if s.flags.unicode then .ok (s.add (.char s.flags.dot) 0, rest) else .error .notText
  | '^' =>
    let a : Assertion :=
      if s.flags.multiLine then if s.flags.anyLineEnd then .anyLineStart else .lineStart
      else .textStart
    .ok (s.add (.assertion a) 0, rest)
  | '$' =>
    let a : Assertion :=
      if s.flags.multiLine then if s.flags.anyLineEnd then .anyLineEnd else .lineEnd
      else .textEnd
    .ok (s.add (.assertion a) 0, rest)
  | c => .ok (s.add (.char (s.flags.literal c)) 0, rest)

/-- Reads to the end of a pattern. -/
def run : Nat → Reading → List Char → Except PatternError Reading
  | 0, s, _ => .ok s
  | n + 1, s, cs =>
    match skipVerbose s.flags cs with
    | [] => .ok s
    | c :: rest => do
      let (s, rest) ← s.step c rest
      run n s rest

end Reading

/-- A pattern as read: its expression, the number of remembered groups and their names. -/
structure Parsed where
  regex : Regex
  groupNames : List (String × Nat)
deriving Repr

/-- Reads a pattern. -/
def read (text : String) : Except PatternError Parsed := do
  let s ← Reading.run text.length .start text.toList
  if !s.groups.isEmpty then .error .unclosedGroup
  else if maxDepth < s.value.depth then .error .tooDeep
  else pure ⟨s.value.regex, s.names⟩

end DeclAtlas.Pattern
