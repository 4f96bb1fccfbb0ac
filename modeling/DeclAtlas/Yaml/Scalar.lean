import DeclAtlas.Pattern.Reader

/-!
# YAML scalars

The texts that a YAML text holds: plain ones, ones between quotes, and blocks of whole lines.
A line break inside a scalar is folded in all of them but the literal blocks: one break becomes
a blank, and of several breaks the first is dropped.  In folded blocks this concerns only breaks
between two lines that begin with no blank.
-/

namespace DeclAtlas.Yaml

/-!
## Places in a YAML text

The characters that YAML tells apart, and the place that a scanner has reached in a text.  A
line may end with a line feed, a carriage return, both, or one of three other characters of
Unicode.
-/

/-- Why a text is no YAML document. -/
inductive YamlError
  | badCharacter
  | badIndentation
  | badScalar
  | badTag
  | badDirective
  | badNode
  | missingColon
  | unknownAnchor
  | unknownHandle
  | severalDocuments
deriving DecidableEq, Repr

-- ── Characters ───────────────────────────────────────────────────────────────────

/-- Characters that may stand in a text at all. -/
def isAllowed (c : Char) : Bool :=
  let n := c.toNat
  c = '\t' || c = '\n' || c = '\r' || (0x20 ≤ n && n ≤ 0x7E) || n = 0x85 ||
    (0xA0 ≤ n && n ≤ 0xFFFD) || 0x10000 ≤ n

def isBlank (c : Char) : Bool := c = ' ' || c = '\t'

def isBreak (c : Char) : Bool :=
  c = '\n' || c = '\r' || c = '\u0085' || c = '\u2028' || c = '\u2029'

/-- The character that a line break stands for in a scalar: the separators of lines and
    paragraphs are kept, and the others are line feeds. -/
def breakText (c : Char) : Char := if c = '\u2028' || c = '\u2029' then c else '\n'

/-- The text ends here, or a blank or a line break follows. -/
def atGap (cs : List Char) : Bool :=
  match cs with
  | [] => true
  | c :: _ => isBlank c || isBreak c

/-- Characters that may stand in the name of an anchor. -/
def isNameChar (c : Char) : Bool := c.isAlphanum || c = '_' || c = '-'

-- ── Places ───────────────────────────────────────────────────────────────────────

/-- A place in a text. -/
structure Spot where
  rest : List Char
  /-- The number of bytes in front of it. -/
  offset : Nat
  line : Nat
  column : Nat

namespace Spot

/-- The place in front of a text. -/
def start (cs : List Char) : Spot := ⟨cs, 0, 0, 0⟩

/-- Moves over `n` characters of a line. -/
def move (p : Spot) (n : Nat) : Spot where
  rest := p.rest.drop n
  offset := (p.rest.take n).foldl (fun k c => k + c.utf8Size) p.offset
  line := p.line
  column := p.column + n

/-- Moves to the place where `rest` is left of the line. -/
def moveTo (p : Spot) (rest : List Char) : Spot := p.move (p.rest.length - rest.length)

/-- Moves over the characters of a kind. -/
def skipWhile (p : Spot) (kind : Char → Bool) : Spot := p.move (p.rest.takeWhile kind).length

/-- The character that a line break stands for, and the place behind it; none if no line break
    is next. -/
def lineBreak? (p : Spot) : Option (Char × Spot) :=
  match p.rest with
  | '\r' :: '\n' :: rest => some ('\n', ⟨rest, p.offset + 2, p.line + 1, 0⟩)
  | c :: rest =>
    if isBreak c then some (breakText c, ⟨rest, p.offset + c.utf8Size, p.line + 1, 0⟩) else none
  | [] => none

/-- Moves over a comment, if one is next, to the end of the line. -/
def skipComment (p : Spot) : Spot :=
  if p.rest.head? = some '#' then p.skipWhile fun c => !isBreak c else p

/-- Moves over the blanks and the comment that may end a line, and over the line break, which
    may be missing at the end of the text. -/
def endLine? (p : Spot) : Option Spot :=
  let p := (p.skipWhile isBlank).skipComment
  match p.lineBreak? with
  | some (_, p) => some p
  | none => if p.rest.isEmpty then some p else none

/-- Three equal signs at the front of a line that stand for themselves. -/
def atDocumentMark (p : Spot) : Bool :=
  p.column = 0 && (p.rest.take 3 = ['-', '-', '-'] || p.rest.take 3 = ['.', '.', '.']) &&
    atGap (p.rest.drop 3)

end Spot

/-! ## Scalars -/

-- ── Folding ──────────────────────────────────────────────────────────────────────

/-- Moves over blanks and line breaks, and gives what the breaks stand for.  A tab must not stand
    where indentation is expected, in front of the column `indent`. -/
def skipFold (indent : Nat) : Nat → Spot → List Char → Except YamlError (Spot × List Char)
  | 0, p, breaks => .ok (p, breaks)
  | n + 1, p, breaks =>
    match p.lineBreak? with
    | some (c, p) => skipFold indent n p (breaks ++ [c])
    | none =>
      match p.rest with
      | c :: _ =>
        if isBlank c then
          if c = '\t' ∧ breaks ≠ [] ∧ p.column < indent then .error .badIndentation
          else skipFold indent n (p.move 1) breaks
        else .ok (p, breaks)
      | [] => .ok (p, breaks)

/-- The text that blanks and breaks between two words stand for.  Breaks that begin with a
    separator of lines or paragraphs are not folded. -/
def foldText (blanks : List Char) : List Char → List Char
  | [] => blanks
  | ['\n'] => [' ']
  | '\n' :: breaks => breaks
  | breaks => breaks

-- ── Plain scalars ────────────────────────────────────────────────────────────────

/-- The characters of a plain scalar up to a blank, a break or an indicator that ends it. -/
def plainWord (inFlow : Bool) : List Char → Except YamlError (List Char)
  | [] => .ok []
  | c :: rest =>
    if isBlank c || isBreak c then .ok []
    else if inFlow && c = ':' && rest.head?.any (",?[]\x7b\x7d".toList.contains ·) then
      .error .badScalar
    else if c = ':' && atGap rest then .ok []
    else if inFlow && ",[]\x7b\x7d".toList.contains c then .ok []
    else do
      let word ← plainWord inFlow rest
      pure (c :: word)

/-- A plain scalar, which may go on over lines that are indented to `indent` at least.  Gives its
    text, where it ends, and whether line breaks were read behind it. -/
def plainScalar (inFlow : Bool) (indent : Nat) : Nat → Spot → Except YamlError (List Char × Spot × Bool)
  | 0, p => .ok ([], p, false)
  | n + 1, p =>
    if p.atDocumentMark || p.rest.head? = some '#' then .ok ([], p, false)
    else do
      let word ← plainWord inFlow p.rest
      let p := p.move word.length
      let gap := p.rest.takeWhile isBlank
      let (q, breaks) ← skipFold indent p.rest.length p []
      if word = [] ∨ (gap = [] ∧ breaks = []) then pure (word, p, false)
      else if !inFlow && breaks ≠ [] && q.column < indent then pure (word, q, true)
      else
        let (more, r, broken) ← plainScalar inFlow indent n q
        if more = [] then pure (word, q, breaks ≠ [])
        else pure (word ++ foldText gap breaks ++ more, r, broken)

-- ── Quoted scalars ───────────────────────────────────────────────────────────────

/-- The character that a backslash and a letter stand for between double quotes. -/
def escapeChar? : Char → Option Char
  | '0' => some '\x00'
  | 'a' => some '\x07'
  | 'b' => some '\x08'
  | 't' | '\t' => some '\t'
  | 'n' => some '\n'
  | 'v' => some '\x0b'
  | 'f' => some '\x0c'
  | 'r' => some '\r'
  | 'e' => some '\x1b'
  | ' ' => some ' '
  | '"' => some '"'
  | '/' => some '/'
  | '\\' => some '\\'
  | 'N' => some '\u0085'
  | '_' => some '\u00a0'
  | 'L' => some '\u2028'
  | 'P' => some '\u2029'
  | _ => none

/-- The number of digits of a code point behind a backslash and a letter. -/
def codeWidth? : Char → Option Nat
  | 'x' => some 2
  | 'u' => some 4
  | 'U' => some 8
  | _ => none

/-- A quoted scalar behind its opening quote.  A line break behind a backslash is dropped. -/
def quotedScalar (quote : Char) : Nat → Spot → Except YamlError (List Char × Spot)
  | 0, _ => .error .badScalar
  | n + 1, p =>
    if p.atDocumentMark then .error .badScalar
    else
      match p.rest with
      | [] => .error .badScalar
      | c :: rest =>
        let next (text : List Char) (width : Nat) : Except YamlError (List Char × Spot) := do
          let (more, q) ← quotedScalar quote n (p.move width)
          pure (text ++ more, q)
        if c = quote then
          if quote = '\'' ∧ rest.head? = some '\'' then next ['\''] 2
          else .ok ([], p.move 1)
        else if isBlank c || isBreak c then do
          let gap := p.rest.takeWhile isBlank
          let (q, breaks) ← skipFold 0 p.rest.length p []
          let (more, r) ← quotedScalar quote n q
          pure (foldText gap breaks ++ more, r)
        else if c = '\\' ∧ quote = '"' then
          match rest with
          | [] => .error .badScalar
          | d :: after =>
            if isBreak d then do
              let (q, breaks) ← skipFold 0 rest.length (p.move 1) []
              let (more, r) ← quotedScalar quote n q
              pure (breaks.tail ++ more, r)
            else
              match escapeChar? d, codeWidth? d with
              | some e, _ => next [e] 2
              | none, some w =>
                match Pattern.hexChar (after.take w) with
                | .ok e => if after.length < w then .error .badScalar else next [e] (w + 2)
                | .error _ => .error .badScalar
              | none, none => .error .badScalar
        else next [c] 1

-- ── Block scalars ────────────────────────────────────────────────────────────────

/-- The header of a block scalar: how trailing breaks are kept, and the indentation if it is
    given. -/
structure BlockHeader where
  /-- `+` keeps all trailing breaks, `-` drops them; otherwise one is kept. -/
  chomp : Option Char
  indent : Option Nat

/-- The signs behind `|` or `>`, in either order, and how many they are. -/
def blockHeader (cs : List Char) : BlockHeader × Nat :=
  let isChomp (c : Char) := c = '+' || c = '-'
  let digit (c : Char) : Nat := c.toNat - '0'.toNat
  match cs with
  | a :: b :: _ =>
    if isChomp a && b.isDigit then (⟨some a, some (digit b)⟩, 2)
    else if a.isDigit && isChomp b then (⟨some b, some (digit a)⟩, 2)
    else if isChomp a then (⟨some a, none⟩, 1)
    else if a.isDigit then (⟨none, some (digit a)⟩, 1)
    else (⟨none, none⟩, 0)
  | [a] =>
    if isChomp a then (⟨some a, none⟩, 1)
    else if a.isDigit then (⟨none, some (digit a)⟩, 1)
    else (⟨none, none⟩, 0)
  | [] => (⟨none, none⟩, 0)

/-- Moves over empty lines and over the indentation of the line behind them.  If no indentation
    is known yet, all leading blanks belong to it.  Gives what the breaks stand for and the
    column of the widest indentation.  A tab must not stand in the indentation. -/
def skipEmptyLines (indent : Option Nat) : Nat → Spot → Nat →
    Except YamlError (Spot × List Char × Nat)
  | 0, p, widest => .ok (p, [], widest)
  | n + 1, p, widest =>
    let spaces := (p.rest.takeWhile (· = ' ')).length
    let p := p.move (indent.elim spaces fun k => Nat.min spaces (k - p.column))
    let widest := Nat.max widest p.column
    if indent.all (p.column < ·) && p.rest.head? = some '\t' then .error .badIndentation
    else
      match p.lineBreak? with
      | some (c, p) => do
        let (p, breaks, widest) ← skipEmptyLines indent n p widest
        pure (p, c :: breaks, widest)
      | none => .ok (p, [], widest)

/-- What ends a block scalar: the break behind its last line, and those behind that. -/
structure BlockEnd where
  lineEnd : List Char
  emptyLines : List Char

/-- The lines of a block scalar at an indentation, with what ends the lines before and whether
    the last of them began with a blank.  Gives the text up to the last line, what ends it, and
    the place behind. -/
def blockLines (folded : Bool) (indent : Nat) : Nat → Spot → BlockEnd → Bool →
    Except YamlError (List Char × BlockEnd × Spot)
  | 0, p, tail, _ => .ok ([], tail, p)
  | n + 1, p, tail, afterBlank =>
    if p.column = indent ∧ !p.rest.isEmpty then do
      let atBlank := p.rest.head?.any isBlank
      let joint :=
        if folded && tail.lineEnd = ['\n'] && !afterBlank && !atBlank then
          foldText [] (tail.lineEnd ++ tail.emptyLines)
        else tail.lineEnd ++ tail.emptyLines
      let line := p.rest.takeWhile fun c => !isBreak c
      let p := p.move line.length
      let (lineEnd, p) : List Char × Spot :=
        match p.lineBreak? with
        | some (c, p) => ([c], p)
        | none => ([], p)
      let (p, emptyLines, _) ← skipEmptyLines (some indent) (p.rest.length + 1) p 0
      let (text, tail, p) ← blockLines folded indent n p ⟨lineEnd, emptyLines⟩ atBlank
      pure (joint ++ line ++ text, tail, p)
    else .ok ([], tail, p)

/-- A block scalar behind its first sign, inside a block at the column `outer`, if there is
    one. -/
def blockScalar (folded : Bool) (outer : Option Nat) (p : Spot) :
    Except YamlError (List Char × Spot) :=
  let (header, width) := blockHeader p.rest
  match header.indent, (p.move width).endLine? with
  | some 0, _ | _, none => .error .badScalar
  | given, some p => do
    let least := outer.elim 0 (· + 1)
    let indent := given.map fun k => outer.elim k (· + k)
    let (p, breaks, widest) ← skipEmptyLines indent (p.rest.length + 1) p 0
    let indent := indent.getD (Nat.max (Nat.max widest 1) least)
    let (text, tail, p) ← blockLines folded indent (p.rest.length + 1) p ⟨[], breaks⟩ false
    let kept := match header.chomp with
      | some '+' => tail.lineEnd ++ tail.emptyLines
      | some _ => []
      | none => tail.lineEnd
    pure (text ++ kept, p)

end DeclAtlas.Yaml
