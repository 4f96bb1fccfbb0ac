import DeclAtlas.Pattern.Reader
import DeclAtlas.Yaml.Scalar

/-!
# YAML tokens

The indicators, scalars and block marks of a YAML text.  Blocks are marked by tokens of their
own: `blockSequence` and `blockMapping` where deeper indentation opens one, `blockEnd` where
it is left.  That a scalar is the key of a mapping shows only at the colon behind it; the
scanner then puts the tokens `blockMapping` and `key` in front of the scalar, at the place that
it has remembered.
-/

namespace DeclAtlas.Yaml

/-!
## YAML tags and directives

A tag names the kind of a node.  It is written in full between angle brackets, or as a handle
and a suffix, where the handle stands for the beginning of the name.  Directives in front of a
document give the version of YAML and what handles stand for.
-/

/-- A tag as it is written.  One without a handle is a full name. -/
structure Tag where
  handle : String
  suffix : String
deriving DecidableEq, Repr, Inhabited

/-- A line in front of a document. -/
inductive Directive
  | version (major minor : Nat)
  /-- What a handle stands for. -/
  | handle (name stem : String)
deriving DecidableEq, Repr, Inhabited

-- ── Names ────────────────────────────────────────────────────────────────────────

/-- Characters of a tag that stand for themselves.  Those that flow collections need may stand
    only in full names and in directives. -/
def isTagChar (full : Bool) (c : Char) : Bool :=
  isNameChar c || ";/?:@&=+$.!~*'()".toList.contains c || (full && ",[]".toList.contains c)

/-- An octet that is written as a percent sign and two digits. -/
def octet? : List Char → Option (Nat × List Char)
  | '%' :: a :: b :: rest => do
    pure ((← Pattern.hexDigit? a) * 16 + (← Pattern.hexDigit? b), rest)
  | _ => none

/-- How many octets make up a character, by the first of them. -/
def octetCount? (first : Nat) : Option Nat :=
  if first < 0x80 then some 1
  else if first < 0xC0 then none
  else if first < 0xE0 then some 2
  else if first < 0xF0 then some 3
  else if first < 0xF8 then some 4
  else none

/-- Octets of a character behind its first one. -/
def laterOctets : Nat → List Char → Except YamlError (List Char × List Char)
  | 0, cs => .ok ([], cs)
  | n + 1, cs =>
    match octet? cs with
    | some (octet, rest) =>
      if 0x80 ≤ octet ∧ octet < 0xC0 then do
        let (more, rest) ← laterOctets n rest
        pure (Char.ofNat octet :: more, rest)
      else .error .badTag
    | none => .error .badTag

/-- The characters of a name, each octet of an escaped one being a character of its own, and
    what follows them. -/
def tagChars (full : Bool) : Nat → List Char → Except YamlError (List Char × List Char)
  | 0, cs => .ok ([], cs)
  | _, [] => .ok ([], [])
  | n + 1, c :: rest =>
    if c = '%' then
      match octet? (c :: rest) with
      | some (octet, rest) =>
        match octetCount? octet with
        | some count => do
          let (later, rest) ← laterOctets (count - 1) rest
          let (more, rest) ← tagChars full n rest
          pure (Char.ofNat octet :: later ++ more, rest)
        | none => .error .badTag
      | none => .error .badTag
    else if isTagChar full c then do
      let (more, rest) ← tagChars full n rest
      pure (c :: more, rest)
    else .ok ([], c :: rest)

/-- A name; an octet zero ends it. -/
def tagName (cs : List Char) : String := String.ofList (cs.takeWhile (· ≠ '\x00'))

/-- A name that is not empty, and what follows it. -/
def readName (full : Bool) (cs : List Char) : Except YamlError (String × List Char) := do
  let (name, rest) ← tagChars full cs.length cs
  if name = [] then .error .badTag else pure (tagName name, rest)

-- ── Tags ─────────────────────────────────────────────────────────────────────────

/-- A tag behind its exclamation mark, and what follows it.  An exclamation mark alone is a full
    name. -/
def Tag.read : List Char → Except YamlError (Tag × List Char)
  | '<' :: rest => do
    let (name, rest) ← readName true rest
    match rest with
    | '>' :: rest => pure (⟨"", name⟩, rest)
    | _ => .error .badTag
  | cs =>
    let word := cs.takeWhile isNameChar
    match cs.drop word.length with
    | '!' :: rest => do
      let (name, rest) ← readName false rest
      pure (⟨String.ofList ('!' :: word ++ ['!']), name⟩, rest)
    | rest => do
      let (more, rest) ← tagChars false rest.length rest
      let name := tagName (word ++ more)
      pure (if name = "" then ⟨"", "!"⟩ else ⟨"!", name⟩, rest)

/-- What the handles stand for that no directive mentions. -/
def defaultHandles : List (String × String) := [("!", "!"), ("!!", "tag:yaml.org,2002:")]

/-- The full name of a tag. -/
def Tag.fullName (handles : List (String × String)) (t : Tag) : Except YamlError String :=
  if t.handle = "" then .ok t.suffix
  else
    match handles.lookup t.handle with
    | some stem => .ok (stem ++ t.suffix)
    | none => .error .unknownHandle

-- ── Directives ───────────────────────────────────────────────────────────────────

/-- A number of a version, of nine digits at most. -/
def versionNumber (cs : List Char) : Except YamlError (Nat × List Char) :=
  let digits := cs.takeWhile Char.isDigit
  if digits = [] ∨ 9 < digits.length then .error .badDirective
  else
    .ok (digits.foldl (fun n c => n * 10 + (c.toNat - '0'.toNat)) 0, cs.drop digits.length)

/-- A handle: one exclamation mark, or a word between two. -/
def readHandle : List Char → Except YamlError (String × List Char)
  | '!' :: rest =>
    let word := rest.takeWhile isNameChar
    match rest.drop word.length with
    | '!' :: rest => .ok (String.ofList ('!' :: word ++ ['!']), rest)
    | rest => if word = [] then .ok ("!", rest) else .error .badDirective
  | _ => .error .badDirective

/-- A directive behind its percent sign, and what follows it on the line. -/
def Directive.read (cs : List Char) : Except YamlError (Directive × List Char) :=
  let name := cs.takeWhile isNameChar
  let rest := cs.drop name.length
  if !atGap rest then .error .badDirective
  else if name = "YAML".toList then do
    let (major, rest) ← versionNumber (rest.dropWhile isBlank)
    match rest with
    | '.' :: rest =>
      let (minor, rest) ← versionNumber rest
      pure (.version major minor, rest)
    | _ => .error .badDirective
  else if name = "TAG".toList then do
    let (name, rest) ← readHandle (rest.dropWhile isBlank)
    if rest.head?.any isBlank then
      let (stem, rest) ← readName true (rest.dropWhile isBlank)
      if atGap rest then pure (.handle name stem, rest) else .error .badDirective
    else .error .badDirective
  else .error .badDirective

/-- The versions of YAML that can be read. -/
def versions : List (Nat × Nat) := [(1, 1), (1, 2)]

/-- What the handles stand for behind some directives, of which no two may say the same kind of
    thing: the version once, and each handle once. -/
def Directive.handles (ds : List Directive) : Except YamlError (List (String × String)) :=
  let given := ds.filterMap fun
    | .version .. => none
    | .handle name stem => some (name, stem)
  let said := ds.filterMap fun
    | .version major minor => some (major, minor)
    | .handle .. => none
  if said.length ≤ 1 ∧ said.all (versions.contains ·) ∧ (given.map (·.1)).Nodup then
    .ok (given ++ defaultHandles)
  else .error .badDirective

/-! ## Tokens -/

inductive Token
  | documentStart
  | documentEnd
  | directive (d : Directive)
  | blockSequence
  | blockMapping
  | blockEnd
  | openList
  | closeList
  | openMap
  | closeMap
  | entry
  | comma
  | key
  | value
  | anchor (name : String)
  | alias (name : String)
  | tag (t : Tag)
  | scalar (plain : Bool) (text : String)
deriving DecidableEq, Repr, Inhabited

-- ── The state of the scanner ─────────────────────────────────────────────────────

/-- A place in the text where the key of a mapping may have begun. -/
structure Candidate where
  /-- The number of tokens in front of it. -/
  index : Nat
  offset : Nat
  line : Nat
  column : Nat
  /-- The indentation leaves no other choice. -/
  required : Bool

/-- The state of the scanner. -/
structure Scan extends Spot where
  /-- Tokens so far, in order. -/
  tokens : Array Token
  /-- Columns of the open blocks, the innermost first. -/
  indents : List Nat
  /-- One candidate for every open flow collection, and one for the blocks around. -/
  candidates : List (Option Candidate)
  /-- A key may begin here. -/
  keyAllowed : Bool

namespace Scan

def start (cs : List Char) : Scan := ⟨.start cs, #[], [], [none], true⟩

/-- Inside brackets or braces. -/
def inFlow (s : Scan) : Bool := s.candidates.length > 1

/-- The column of the innermost block is less than `column`. -/
def deeper (s : Scan) (column : Nat) : Bool :=
  match s.indents with
  | [] => true
  | i :: _ => i < column

def emit (s : Scan) (t : Token) : Scan := { s with tokens := s.tokens.push t }

/-- Moves over `n` characters of a line. -/
def skip (s : Scan) (n : Nat) : Scan := { s with toSpot := s.toSpot.move n }

-- ── Keys and blocks ──────────────────────────────────────────────────────────────

/-- Gives up the innermost candidate. -/
def dropCandidate (s : Scan) : Except YamlError Scan :=
  match s.candidates with
  | some c :: _ =>
    if c.required then .error .missingColon
    else .ok { s with candidates := none :: s.candidates.tail }
  | _ => .ok s

/-- Remembers that a key may begin here. -/
def saveCandidate (s : Scan) : Except YamlError Scan :=
  if s.keyAllowed then do
    let required := !s.inFlow && s.indents.head? == some s.column
    let s ← s.dropCandidate
    let c : Candidate := ⟨s.tokens.size, s.offset, s.line, s.column, required⟩
    pure { s with candidates := some c :: s.candidates.tail }
  else .ok s

/-- The number of bytes that a key and the blanks behind it may take up. -/
def keyLimit : Nat := 1024

/-- Gives up candidates on earlier lines and those too far away: a key and its colon stand on one
    line, not too far from each other. -/
def dropStale (s : Scan) : Except YamlError Scan := do
  let candidates ← s.candidates.mapM fun
    | some c =>
      if c.line < s.line ∨ c.offset + keyLimit < s.offset then
        if c.required then .error .missingColon else .ok none
      else .ok (some c)
    | none => .ok none
  pure { s with candidates }

/-- Opens a block at a column if that is deeper than the innermost one; its token is put in front
    of the token number `index`. -/
def openBlock (s : Scan) (column index : Nat) (t : Token) : Scan :=
  if s.inFlow || !s.deeper column then s
  else { s with indents := column :: s.indents, tokens := s.tokens.insertIdxIfInBounds index t }

/-- Closes the blocks that are deeper than a column. -/
def closeBlocks (s : Scan) (keep : Nat → Bool) : Scan :=
  if s.inFlow then s
  else
    let closed := s.indents.takeWhile fun i => !keep i
    { s with
      indents := s.indents.drop closed.length
      tokens := s.tokens ++ Array.replicate closed.length .blockEnd }

end Scan

-- ── The scanner ──────────────────────────────────────────────────────────────────

namespace Scan

/-- Moves over blanks, comments and line breaks.  Tabs count as blanks only where no key may
    begin.  A byte order mark may stand in front of a line. -/
def skipGap : Nat → Scan → Scan
  | 0, s => s
  | n + 1, s =>
    match s.lineBreak? with
    | some (_, p) => skipGap n { s with toSpot := p, keyAllowed := s.keyAllowed || !s.inFlow }
    | none =>
      match s.rest with
      | c :: _ =>
        if c = ' ' || (c = '\t' && (s.inFlow || !s.keyAllowed)) || (c = '\ufeff' && s.column = 0)
        then skipGap n (s.skip 1)
        else if c = '#' then skipGap n { s with toSpot := s.skipComment }
        else s
      | [] => s

/-- Ends the text or a document: closes all blocks. -/
def closeAll (s : Scan) : Except YamlError Scan := do
  let s := s.closeBlocks fun _ => false
  let s ← s.dropCandidate
  pure { s with keyAllowed := false }

/-- Opens a flow collection. -/
def openFlow (s : Scan) (t : Token) : Except YamlError Scan := do
  let s ← s.saveCandidate
  pure ({ s with candidates := none :: s.candidates, keyAllowed := true }.emit t |>.skip 1)

/-- Closes a flow collection. -/
def closeFlow (s : Scan) (t : Token) : Except YamlError Scan := do
  let s ← s.dropCandidate
  let candidates := if s.inFlow then s.candidates.tail else s.candidates
  pure ({ s with candidates, keyAllowed := false }.emit t |>.skip 1)

/-- A comma between the items of a flow collection. -/
def comma (s : Scan) : Except YamlError Scan := do
  let s ← s.dropCandidate
  pure ({ s with keyAllowed := true }.emit .comma |>.skip 1)

/-- A hyphen in front of an item of a block sequence. -/
def entry (s : Scan) : Except YamlError Scan :=
  if !s.inFlow && !s.keyAllowed then .error .badIndentation
  else do
    let s := s.openBlock s.column s.tokens.size .blockSequence
    let s ← s.dropCandidate
    pure ({ s with keyAllowed := true }.emit .entry |>.skip 1)

/-- A question mark in front of a key. -/
def explicitKey (s : Scan) : Except YamlError Scan :=
  if !s.inFlow && !s.keyAllowed then .error .badIndentation
  else do
    let s := s.openBlock s.column s.tokens.size .blockMapping
    let s ← s.dropCandidate
    pure ({ s with keyAllowed := !s.inFlow }.emit .key |>.skip 1)

/-- A colon.  If a key may have begun before, it has. -/
def value (s : Scan) : Except YamlError Scan :=
  match s.candidates with
  | some c :: outer =>
    let s := { s with tokens := s.tokens.insertIdxIfInBounds c.index .key, candidates := none :: outer }
    let s := s.openBlock c.column c.index .blockMapping
    .ok ({ s with keyAllowed := false }.emit .value |>.skip 1)
  | _ =>
    if !s.inFlow && !s.keyAllowed then .error .badIndentation
    else
      let s := s.openBlock s.column s.tokens.size .blockMapping
      .ok ({ s with keyAllowed := !s.inFlow }.emit .value |>.skip 1)

/-- A token that may begin a key and is written with the given number of characters. -/
def property (s : Scan) (t : Token) (width : Nat) : Except YamlError Scan := do
  let s ← s.saveCandidate
  pure ({ s with keyAllowed := false }.emit t |>.skip width)

/-- The name of an anchor or an alias. -/
def named (s : Scan) (make : String → Token) : Except YamlError Scan :=
  let name := s.rest.tail.takeWhile isNameChar
  let after := s.rest.tail.drop name.length
  if name = [] ∨ !(atGap after || after.head?.any ("?:,]\x7d%@\x60".toList.contains ·)) then
    .error .badScalar
  else s.property (make (String.ofList name)) (name.length + 1)

/-- A tag.  A blank follows it, or a comma in a flow collection. -/
def tag (s : Scan) : Except YamlError Scan := do
  let (t, after) ← Tag.read s.rest.tail
  if atGap after || (s.inFlow && after.head? = some ',') then
    s.property (.tag t) (s.rest.length - after.length)
  else .error .badTag

/-- A scalar between quotes. -/
def quoted (s : Scan) (quote : Char) : Except YamlError Scan := do
  let s ← s.saveCandidate
  let (text, p) ← quotedScalar quote (s.rest.length + 1) (s.toSpot.move 1)
  let s := { s with toSpot := p, keyAllowed := false }
  pure (s.emit (.scalar false (String.ofList text)))

/-- A scalar without quotes. -/
def plain (s : Scan) : Except YamlError Scan := do
  let s ← s.saveCandidate
  let indent := s.indents.head?.elim 0 (· + 1)
  let (text, p, broken) ← plainScalar s.inFlow indent (s.rest.length + 1) s.toSpot
  let s := { s with toSpot := p, keyAllowed := broken }
  pure (s.emit (.scalar true (String.ofList text)))

/-- A scalar that takes whole lines. -/
def block (s : Scan) (folded : Bool) : Except YamlError Scan := do
  let s ← s.dropCandidate
  let (text, p) ← blockScalar folded s.indents.head? (s.toSpot.move 1)
  let s := { s with toSpot := p, keyAllowed := true }
  pure (s.emit (.scalar false (String.ofList text)))

/-- A mark at the front of a line that begins or ends a document. -/
def document (s : Scan) (t : Token) : Except YamlError Scan := do
  let s ← s.closeAll
  pure (s.emit t |>.skip 3)

/-- A directive, which takes a line. -/
def directive (s : Scan) : Except YamlError Scan := do
  let s ← s.closeAll
  let (d, rest) ← Directive.read s.rest.tail
  match (s.toSpot.moveTo rest).endLine? with
  | some p => pure ({ s with toSpot := p }.emit (.directive d))
  | none => .error .badDirective

/-- The characters that cannot begin a plain scalar, apart from those that may in some
    places. -/
def indicators : List Char := "-?:,[]\x7b\x7d#&*!|>'\"%@\x60".toList

/-- A plain scalar begins here. -/
def startsPlain (s : Scan) (c : Char) (rest : List Char) : Bool :=
  (!isBlank c && !isBreak c && !indicators.contains c) ||
    (c = '-' && !rest.head?.any isBlank) ||
    (!s.inFlow && (c = '?' || c = ':') && !atGap rest)

/-- The next token or tokens. -/
def step (s : Scan) (c : Char) (rest : List Char) : Except YamlError Scan :=
  if s.column = 0 ∧ c = '%' then s.directive
  else if s.atDocumentMark then
    s.document (if c = '-' then .documentStart else .documentEnd)
  else if c = '[' then s.openFlow .openList
  else if c = '\x7b' then s.openFlow .openMap
  else if c = ']' then s.closeFlow .closeList
  else if c = '\x7d' then s.closeFlow .closeMap
  else if c = ',' then s.comma
  else if c = '-' ∧ atGap rest then s.entry
  else if c = '?' ∧ (s.inFlow ∨ atGap rest) then s.explicitKey
  else if c = ':' ∧ (s.inFlow ∨ atGap rest) then s.value
  else if c = '*' then s.named .alias
  else if c = '&' then s.named .anchor
  else if c = '!' then s.tag
  else if c = '|' ∧ !s.inFlow then s.block false
  else if c = '>' ∧ !s.inFlow then s.block true
  else if c = '\'' ∨ c = '"' then s.quoted c
  else if s.startsPlain c rest then s.plain
  else .error .badCharacter

/-- Reads to the end of the text. -/
def run : Nat → Scan → Except YamlError Scan
  | 0, _ => .error .badCharacter
  | n + 1, s => do
    let s := s.skipGap (s.rest.length + 1)
    let s ← s.dropStale
    match s.rest with
    | [] => s.closeAll
    | c :: rest =>
      let column := s.column
      let s := s.closeBlocks (· ≤ column)
      let s ← s.step c rest
      run n s

end Scan

/-- The tokens of a text. -/
def tokens (text : String) : Except YamlError (List Token) := do
  let cs := text.toList
  if cs.all isAllowed then
    let s ← Scan.run (cs.length + 2) (.start cs)
    pure s.tokens.toList
  else .error .badCharacter

end DeclAtlas.Yaml
