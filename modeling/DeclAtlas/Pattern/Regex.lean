import DeclAtlas.Text.Property
import DeclAtlas.Text.Script

/-!
# Regular expressions

The syntax trees of patterns.  At their leaves are character classes: ranges and tables, put
together by union, complement, intersection and difference.  A set without regard to case holds
every character that has a variant in it.
-/

namespace DeclAtlas.Pattern

/-- A set of characters. -/
inductive CharClass
  /-- The characters in one of the ranges of code points. -/
  | ranges (rs : List (Nat × Nat))
  /-- The characters that are in a set but for case. -/
  | anyCase (k : CharClass)
  /-- The characters that are in a set but for the case of ASCII letters. -/
  | anyAsciiCase (k : CharClass)
  | compl (k : CharClass)
  | union (k l : CharClass)
  | inter (k l : CharClass)
  | diff (k l : CharClass)
  | symmDiff (k l : CharClass)
deriving Repr, Inhabited

namespace CharClass

/-- A code point is in a set. -/
def has : CharClass → Nat → Bool
  | ranges rs, n => Text.inRanges rs n
  | anyCase k, n => (Text.caseVariants n).any k.has
  | anyAsciiCase k, n => (Text.asciiCaseVariants n).any k.has
  | compl k, n => !k.has n
  | union k l, n => k.has n || l.has n
  | inter k l, n => k.has n && l.has n
  | diff k l, n => k.has n && !l.has n
  | symmDiff k l, n => k.has n != l.has n

/-- A character is in a set. -/
def contains (k : CharClass) (c : Char) : Bool := k.has c.toNat

/-- The set without characters. -/
def empty : CharClass := ranges []

/-- The set of one character. -/
def single (c : Char) : CharClass := ranges [(c.toNat, c.toNat)]

/-- The characters of a text. -/
def ofString (s : String) : CharClass := ranges (s.toList.map fun c => (c.toNat, c.toNat))

-- ── Named sets ───────────────────────────────────────────────────────────────────

/-- ASCII digits. -/
def asciiDigit : CharClass := ranges [(0x30, 0x39)]

/-- ASCII characters of words. -/
def asciiWord : CharClass := ranges [(0x30, 0x39), (0x41, 0x5A), (0x5F, 0x5F), (0x61, 0x7A)]

/-- ASCII white space. -/
def asciiSpace : CharClass := ranges [(0x9, 0xD), (0x20, 0x20)]

/-- Decimal digits. -/
def digit : CharClass := ranges Text.digitRanges

/-- Characters of words. -/
def word : CharClass := ranges Text.wordRanges

/-- White space. -/
def space : CharClass := ranges Text.spaceRanges

/-- The sets that a bracket expression may name between `[:` and `:]`. -/
def posix? (name : String) : Option CharClass :=
  match name with
  | "alnum" => some (ranges [(0x30, 0x39), (0x41, 0x5A), (0x61, 0x7A)])
  | "alpha" => some (ranges [(0x41, 0x5A), (0x61, 0x7A)])
  | "ascii" => some (ranges [(0x0, 0x7F)])
  | "blank" => some (ranges [(0x9, 0x9), (0x20, 0x20)])
  | "cntrl" => some (ranges [(0x0, 0x1F), (0x7F, 0x7F)])
  | "digit" => some asciiDigit
  | "graph" => some (ranges [(0x21, 0x7E)])
  | "lower" => some (ranges [(0x61, 0x7A)])
  | "print" => some (ranges [(0x20, 0x7E)])
  | "punct" => some (ranges [(0x21, 0x2F), (0x3A, 0x40), (0x5B, 0x60), (0x7B, 0x7E)])
  | "space" => some asciiSpace
  | "upper" => some (ranges [(0x41, 0x5A)])
  | "word" => some asciiWord
  | "xdigit" => some (ranges [(0x30, 0x39), (0x41, 0x46), (0x61, 0x66)])
  | _ => none

/-- Names are compared without regard to case, blanks, hyphens, underscores and characters outside
    ASCII.  They may begin with "is", which says nothing unless a "c" alone follows. -/
def propertyKey (name : List Char) : String :=
  let isKept (c : Char) : Bool := c.toNat < 128 && c ≠ ' ' && c ≠ '-' && c ≠ '_'
  let key (cs : List Char) : List Char := (cs.filter isKept).map Char.toLower
  if (name.take 2).map Char.toLower = ['i', 's'] then
    if key (name.drop 2) = ['c'] then "isc" else String.ofList (key (name.drop 2))
  else String.ofList (key name)

/-- The characters of a general category. -/
def category? (key : String) : Option CharClass :=
  match key with
  | "any" => some (ranges [(0x0, 0x10FFFF)])
  | "assigned" => (Text.category? "cn").map fun rs => compl (ranges rs)
  | "ascii" => some (ranges [(0x0, 0x7F)])
  | key => (Text.category? key).map ranges

/-- The characters of a property, a general category or a script. -/
def named? (key : String) : Option CharClass :=
  (Text.property? key).map ranges <|> category? key <|> (Text.scriptRanges? key).map ranges

/-- The characters for which something has a value. -/
def withValue? (key value : String) : Option CharClass :=
  if key = "gc" ∨ key = "generalcategory" then category? value
  else if key = "sc" ∨ key = "script" then (Text.scriptRanges? value).map ranges
  else if key = "scx" ∨ key = "scriptextensions" then (Text.usedRanges? value).map ranges
  else none

/-- The set that a pattern names as a property of characters: by a name alone, or by a name and a
    value.  Between these stands a colon or an equals sign; an exclamation mark in front of the
    equals sign says nothing, since complements are written with a capital letter. -/
def property? (text : List Char) : Option CharClass :=
  let valued (width : Nat) (front : List Char) : Option CharClass :=
    withValue? (propertyKey front) (propertyKey (text.drop (front.length + width)))
  let marked := (List.range text.length).find? fun i => (text.drop i).take 2 = ['!', '=']
  match marked with
  | some i => valued 2 (text.take i)
  | none =>
    if text.contains ':' then valued 1 (text.takeWhile (· ≠ ':'))
    else if text.contains '=' then valued 1 (text.takeWhile (· ≠ '='))
    else named? (propertyKey text)

-- ── Size ─────────────────────────────────────────────────────────────────────────

/-- About how many ranges make up a set. -/
def rangeCount : CharClass → Nat
  | ranges rs => (Text.joinRanges rs).length
  | anyCase (ranges [(lo, hi)]) =>
    if lo = hi then (Text.caseVariants lo).eraseDups.length else 2
  | anyCase k | anyAsciiCase k => 2 * k.rangeCount
  | compl k => k.rangeCount + 1
  | union k l | inter k l | diff k l | symmDiff k l => k.rangeCount + l.rangeCount

/-- The set holds ASCII characters only. -/
def isAscii : CharClass → Bool
  | ranges rs => rs.all (·.2 < 128)
  | anyCase k | anyAsciiCase k => k.isAscii
  | compl _ => false
  | union k l | symmDiff k l => k.isAscii && l.isAscii
  | inter k l => k.isAscii || l.isAscii
  | diff k _ => k.isAscii

/-- The set is most of all characters. -/
def isWide : CharClass → Bool
  | ranges rs => rs.any fun (lo, hi) => 0x10000 ≤ hi - lo
  | anyCase k | anyAsciiCase k => k.isWide
  | compl k => !k.isWide
  | union k l | symmDiff k l => k.isWide || l.isWide
  | inter k l => k.isWide && l.isWide
  | diff k _ => k.isWide

/-- The only character of a set that is written as one. -/
def only? : CharClass → Option Nat
  | ranges [(lo, hi)] => if lo = hi then some lo else none
  | anyCase k => k.only?.filter fun n => (Text.caseVariants n).eraseDups.length = 1
  | anyAsciiCase k => k.only?.filter fun n => (Text.asciiCaseVariants n).length = 1
  | union (ranges []) k => k.only?
  | _ => none

/-- About how many bytes a set takes in an automaton that reads bytes. -/
def weight (k : CharClass) : Nat :=
  match k.only? with
  | some n => 32 * (Char.ofNat n).utf8Size
  | none =>
    let count := k.rangeCount
    if k.isAscii then if count = 1 then 64 else 64 + 8 * count
    else 64 + 64 * count + (if k.isWide then 900 else 0)

end CharClass

/-!
## Trees

How short and how long a text they can match at least tell of a tree whether it can match the empty
text, and whether it can match anything else.
-/

/-- A condition on the place between two characters. -/
inductive Assertion
  | textStart
  | textEnd
  | lineStart
  | lineEnd
  /-- Like `lineStart` where a carriage return ends a line, too. -/
  | anyLineStart
  /-- Like `lineEnd` where a carriage return ends a line, too. -/
  | anyLineEnd
  /-- Between a character of a word and one that is none. -/
  | boundary (word : CharClass)
  | noBoundary (word : CharClass)
  | wordStart (word : CharClass)
  | wordEnd (word : CharClass)
  /-- No character of a word stands before. -/
  | notAfterWord (word : CharClass)
  /-- No character of a word stands behind. -/
  | notBeforeWord (word : CharClass)
deriving Repr, Inhabited

/-- The assertion holds between the characters `before` and `after`. -/
def Assertion.holds (before after : Option Char) : Assertion → Bool
  | textStart => before.isNone
  | textEnd => after.isNone
  | lineStart => before.isNone || before == some '\n'
  | lineEnd => after.isNone || after == some '\n'
  | anyLineStart =>
    before.isNone || before == some '\n' || (before == some '\r' && after != some '\n')
  | anyLineEnd =>
    after.isNone || after == some '\r' || (after == some '\n' && before != some '\r')
  | boundary w => before.any w.contains != after.any w.contains
  | noBoundary w => before.any w.contains == after.any w.contains
  | wordStart w => !before.any w.contains && after.any w.contains
  | wordEnd w => before.any w.contains && !after.any w.contains
  | notAfterWord w => !before.any w.contains
  | notBeforeWord w => !after.any w.contains

/-- A regular expression. -/
inductive Regex
  /-- Matches the empty text. -/
  | empty
  /-- Matches one character of a set. -/
  | char (k : CharClass)
  | assertion (a : Assertion)
  | seq (e f : Regex)
  /-- Prefers the first of two. -/
  | alt (e f : Regex)
  /-- At least `min` and at most `max` times; prefers more if greedy, and else fewer. -/
  | loop (e : Regex) (min : Nat) (max : Option Nat) (greedy : Bool)
  /-- Remembers what `e` matches under a number. -/
  | group (index : Nat) (e : Regex)
deriving Repr, Inhabited

namespace Regex

/-- An expression that matches no empty text. -/
def consumes : Regex → Bool
  | empty => false
  | char _ => true
  | assertion _ => false
  | seq e f => e.consumes || f.consumes
  | alt e f => e.consumes && f.consumes
  | loop e min _ _ => min > 0 && e.consumes
  | group _ e => e.consumes

/-- An expression that matches nothing but empty texts. -/
def onlyEmpty : Regex → Bool
  | empty => true
  | char _ => false
  | assertion _ => true
  | seq e f => e.onlyEmpty && f.onlyEmpty
  | alt e f => e.onlyEmpty && f.onlyEmpty
  | loop e _ max _ => max == some 0 || e.onlyEmpty
  | group _ e => e.onlyEmpty

/-- A loop, with the counts that make a difference: what only matches the empty text is matched
    at most once. -/
def repeated (e : Regex) (min : Nat) (max : Option Nat) (greedy : Bool) : Regex :=
  let (min, max) := if e.onlyEmpty then (Nat.min min 1, some ((max.getD 1).min 1)) else (min, max)
  if min = 0 ∧ max = some 0 then empty
  else if min = 1 ∧ max = some 1 then e
  else loop e min max greedy

/-- Several expressions one after the other. -/
def sequence : List Regex → Regex
  | [] => empty
  | [e] => e
  | e :: es => seq e (sequence es)

/-- Several alternatives. -/
def choice : List Regex → Regex
  | [] => empty
  | [e] => e
  | e :: es => alt e (choice es)

/-- About how many bytes an expression takes as an automaton that reads bytes, of which one state
    takes 32 and each further way out of it 4. -/
def weight : Regex → Nat
  | empty => 32
  | char k => k.weight
  | assertion _ => 32
  | seq e f => e.weight + f.weight
  | alt e f => e.weight + f.weight + 36
  | loop e min none _ => e.weight * Nat.max min 1 + 40
  | loop e min (some max) _ =>
    e.weight * max + (if min = max then 0 else 40 * (max - min) + 32)
  | group _ e => e.weight + 64

end Regex

end DeclAtlas.Pattern
