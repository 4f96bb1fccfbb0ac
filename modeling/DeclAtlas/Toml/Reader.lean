import DeclAtlas.Pattern.Reader

/-!
# Reading TOML

The syntax of TOML 1.1.  `Toml.read` gives the entries of the root table.  Arrays and inline
tables nest, so the reader of values has the number of characters as its budget.  How deep they
may nest is bounded, and so is the number of parts of a key.
-/

namespace DeclAtlas.Toml

/-!
## TOML values and tables

The values of a TOML document, and the tables that are built while one is read.  A table may
come about in three ways, which decide how it may be extended later: by its own header, on the
way to the header of an inner table, or by a dotted key.
-/

/-- Why a text is no TOML document. -/
inductive TomlError
  | badKey
  | badValue
  | badString
  | badLine
  | duplicateKey
  | unclosed
  | tooDeep
deriving DecidableEq, Repr

/-- A value.  Numbers, booleans and dates are told apart from texts and from each other no
    further. -/
inductive Value
  | text (s : String)
  | atom
  | list (items : List Value)
  | table (entries : List (String × Value))
deriving Repr, Inhabited

/-- How a table came about. -/
inductive Origin
  /-- On the way to the header of an inner table. -/
  | passing
  /-- By a header of its own. -/
  | header
  /-- By a dotted key. -/
  | dotted
deriving DecidableEq, Repr

/-- What a key of an unfinished document holds. -/
inductive Node
  | leaf (v : Value)
  | table (origin : Origin) (entries : List (String × Node))
  /-- The tables of repeated headers, the latest first. -/
  | tables (items : List (List (String × Node)))
deriving Repr, Inhabited

/-- Keys and what they hold, in the order of their first use. -/
abbrev Entries := List (String × Node)

/-- Replaces what a key holds. -/
def Entries.put (entries : Entries) (key : String) (n : Node) : Entries :=
  entries.map fun (k, old) => if k = key then (k, n) else (k, old)

/-- The parts of a dotted key go on behind the next one, so that the table of the next one is
    only passed. -/
def passes (keys : List String) : Bool := keys.length > 1

/-- Adds a value under a dotted key.  A table with a header of its own is closed to dotted
    keys.  Other tables of headers may be passed, but the table that takes the value has come
    about by a dotted key itself. -/
def Entries.insert (entries : Entries) : List String → Value → Except TomlError Entries
  | [], _ => .error .badKey
  | [key], v =>
    match entries.lookup key with
    | none => .ok (entries ++ [(key, .leaf v)])
    | some _ => .error .duplicateKey
  | key :: keys, v =>
    match entries.lookup key with
    | none => do
      let inner ← Entries.insert [] keys v
      pure (entries ++ [(key, .table .dotted inner)])
    | some (.table origin inner) =>
      if origin = .dotted ∨ (origin = .passing ∧ passes keys) then do
        let inner ← Entries.insert inner keys v
        pure (entries.put key (.table origin inner))
      else .error .duplicateKey
    | some (.tables (last :: before)) =>
      if passes keys then do
        let last ← Entries.insert last keys v
        pure (entries.put key (.tables (last :: before)))
      else .error .duplicateKey
    | some (.leaf _) | some (.tables []) => .error .duplicateKey

/-- Changes the table at the end of a path of headers.  Tables that are missing on the way are
    made, and of repeated tables the latest is taken. -/
def Entries.modify (f : Entries → Except TomlError Entries) (entries : Entries) :
    List String → Except TomlError Entries
  | [] => f entries
  | key :: keys =>
    match entries.lookup key with
    | none => do
      let inner ← Entries.modify f [] keys
      pure (entries ++ [(key, .table .passing inner)])
    | some (.table origin inner) => do
      let inner ← Entries.modify f inner keys
      pure (entries.put key (.table origin inner))
    | some (.tables (last :: before)) => do
      let last ← Entries.modify f last keys
      pure (entries.put key (.tables (last :: before)))
    | some _ => .error .duplicateKey

/-- Opens the table of a header. -/
def Entries.openTable (key : String) (entries : Entries) : Except TomlError Entries :=
  match entries.lookup key with
  | none => .ok (entries ++ [(key, .table .header [])])
  | some (.table .passing inner) => .ok (entries.put key (.table .header inner))
  | some _ => .error .duplicateKey

/-- Opens the next table of a repeated header. -/
def Entries.openNext (key : String) (entries : Entries) : Except TomlError Entries :=
  match entries.lookup key with
  | none => .ok (entries ++ [(key, .tables [[]])])
  | some (.tables items) => .ok (entries.put key (.tables ([] :: items)))
  | some _ => .error .duplicateKey

mutual

/-- The value of a finished node. -/
def Node.value : Node → Value
  | .leaf v => v
  | .table _ entries => .table (entriesValue entries)
  | .tables items => .list (tablesValue items).reverse

/-- The values of the entries of a table. -/
def entriesValue : List (String × Node) → List (String × Value)
  | [] => []
  | (key, n) :: rest => (key, n.value) :: entriesValue rest

/-- The values of repeated tables. -/
def tablesValue : List (List (String × Node)) → List Value
  | [] => []
  | entries :: rest => .table (entriesValue entries) :: tablesValue rest

end

/-! ## Reading -/

/-- Reads a value from the front of a text and gives what is left. -/
abbrev Reader (α : Type) := List Char → Except TomlError (α × List Char)

-- ── Blanks, comments and line ends ───────────────────────────────────────────────

def isBlank (c : Char) : Bool := c = ' ' || c = '\t'

/-- Control characters, apart from the tab, stand nowhere in a document. -/
def isControl (c : Char) : Bool := (c.toNat < 0x20 && c ≠ '\t') || c.toNat = 0x7F

def skipBlanks (cs : List Char) : List Char := cs.dropWhile isBlank

/-- What follows a line end; none if no line end is next. -/
def lineEnd? : List Char → Option (List Char)
  | '\n' :: rest | '\r' :: '\n' :: rest => some rest
  | _ => none

/-- Moves over a comment, if one is next, to the end of the line. -/
def skipComment (cs : List Char) : List Char :=
  match cs with
  | '#' :: rest => rest.dropWhile fun c => !isControl c
  | _ => cs

/-- Moves over the blanks and the comment that may end a line, and over the line end, of which
    the end of the text is one. -/
def endLine (cs : List Char) : Except TomlError (List Char) :=
  match skipComment (skipBlanks cs) with
  | [] => .ok []
  | rest =>
    match lineEnd? rest with
    | some rest => .ok rest
    | none => .error .badLine

/-- Moves over blanks, comments and line ends. -/
def skipLines : Nat → List Char → List Char
  | 0, cs => cs
  | n + 1, cs =>
    let rest := skipComment (skipBlanks cs)
    match lineEnd? rest with
    | some rest => skipLines n rest
    | none => rest

-- ── Strings ──────────────────────────────────────────────────────────────────────

/-- The character of a code point with a fixed number of digits. -/
def codePoint (width : Nat) (cs : List Char) : Except TomlError (Char × List Char) :=
  if cs.length < width then .error .badString
  else
    match Pattern.hexChar (cs.take width) with
    | .ok c => .ok (c, cs.drop width)
    | .error _ => .error .badString

/-- The character behind a backslash. -/
def escape : Reader Char
  | 'b' :: rest => .ok ('\x08', rest)
  | 'e' :: rest => .ok ('\x1b', rest)
  | 't' :: rest => .ok ('\t', rest)
  | 'n' :: rest => .ok ('\n', rest)
  | 'f' :: rest => .ok ('\x0c', rest)
  | 'r' :: rest => .ok ('\r', rest)
  | '"' :: rest => .ok ('"', rest)
  | '\\' :: rest => .ok ('\\', rest)
  | 'x' :: rest => codePoint 2 rest
  | 'u' :: rest => codePoint 4 rest
  | 'U' :: rest => codePoint 8 rest
  | _ => .error .badString

/-- The rest of a string on one line.  Only between double quotes does a backslash escape. -/
def lineString (quote : Char) : Nat → Reader (List Char)
  | 0, _ | _, [] => .error .unclosed
  | n + 1, c :: rest =>
    if c = quote then .ok ([], rest)
    else if c = '\\' ∧ quote = '"' then do
      let (d, rest) ← escape rest
      let (ds, rest) ← lineString quote n rest
      pure (d :: ds, rest)
    else if isControl c then .error .badString
    else do
      let (ds, rest) ← lineString quote n rest
      pure (c :: ds, rest)

/-- White space and line ends behind a backslash at the end of a line. -/
def skipFolded : Nat → List Char → List Char
  | 0, cs => cs
  | n + 1, cs =>
    let rest := skipBlanks cs
    match lineEnd? rest with
    | some rest => skipFolded n rest
    | none => rest

/-- The rest of a string over several lines, whose line ends are kept as they are.  Up to two
    quotes may stand in front of the three that close it. -/
def blockString (quote : Char) : Nat → Reader (List Char)
  | 0, _ | _, [] => .error .unclosed
  | n + 1, c :: rest =>
    if c = quote then
      let run := (rest.takeWhile (· = quote)).length + 1
      let rest := rest.dropWhile (· = quote)
      if run < 3 then do
        let (ds, rest) ← blockString quote n rest
        pure (List.replicate run quote ++ ds, rest)
      else if run ≤ 5 then .ok (List.replicate (run - 3) quote, rest)
      else .error .badString
    else if c = '\\' ∧ quote = '"' then
      match lineEnd? (skipBlanks rest) with
      | some _ => blockString quote n (skipFolded rest.length rest)
      | none => do
        let (d, rest) ← escape rest
        let (ds, rest) ← blockString quote n rest
        pure (d :: ds, rest)
    else
      match lineEnd? (c :: rest) with
      | some rest => do
        let (ds, rest) ← blockString quote n rest
        pure ((if c = '\r' then ['\r', '\n'] else ['\n']) ++ ds, rest)
      | none =>
        if isControl c then .error .badString
        else do
          let (ds, rest) ← blockString quote n rest
          pure (c :: ds, rest)

/-- A string that begins with one of the two quotes. -/
def string (quote : Char) : Reader String
  | cs => do
    let (chars, rest) ←
      if cs.take 2 = [quote, quote] then
        let body := cs.drop 2
        blockString quote cs.length ((lineEnd? body).getD body)
      else lineString quote cs.length cs
    pure (String.ofList chars, rest)

-- ── Numbers, booleans and dates ──────────────────────────────────────────────────

/-- Digits, with single underscores between them. -/
def isDigits (isDigit : Char → Bool) : List Char → Bool
  | [] => false
  | [c] => isDigit c
  | c :: '_' :: rest => isDigit c && isDigits isDigit rest
  | c :: rest => isDigit c && isDigits isDigit rest

def withoutSign : List Char → List Char
  | '+' :: rest | '-' :: rest => rest
  | cs => cs

/-- A decimal integer without a sign: no zero stands in front of other digits. -/
def isDecimal (cs : List Char) : Bool :=
  cs = ['0'] || (cs.head? != some '0' && isDigits Char.isDigit cs)

/-- The number that digits of a base write.  Underscores do not count. -/
def digitsValue (base : Nat) (cs : List Char) : Nat :=
  (cs.filter (· ≠ '_')).foldl (fun n c => n * base + (Pattern.hexDigit? c).getD 0) 0

/-- An integer in one of the four bases, of at most 128 bits. -/
def isInteger (cs : List Char) : Bool :=
  let fits (base : Nat) (digits : List Char) : Bool := digitsValue base digits < Nat.pow 2 128
  match cs with
  | '0' :: 'x' :: rest => isDigits (fun c => (Pattern.hexDigit? c).isSome) rest && fits 16 rest
  | '0' :: 'o' :: rest => isDigits (fun c => '0' ≤ c && c ≤ '7') rest && fits 8 rest
  | '0' :: 'b' :: rest => isDigits (fun c => c = '0' || c = '1') rest && fits 2 rest
  | '-' :: rest => isDecimal rest && digitsValue 10 rest ≤ Nat.pow 2 127
  | _ => isDecimal (withoutSign cs) && fits 10 (withoutSign cs)

/-- The number `m · 10 ^ (e - f)` is nearer to a number of double precision than to the power of
    two behind the largest of them.  The bound lies between 10 to the 308 and 10 to the 309, so
    only numbers with 309 digits before the point have to be compared. -/
def fitsDouble (m e f : Nat) : Bool :=
  let digits := (Nat.toDigits 10 m).length + e
  if m = 0 || digits < 309 + f then true
  else if 309 + f < digits then false
  else m * Nat.pow 10 e < (Nat.pow 2 1024 - Nat.pow 2 970) * Nat.pow 10 f

/-- A number with a fraction or an exponent, infinity, or no number at all. -/
def isFloat (cs : List Char) : Bool :=
  let body := withoutSign cs
  let mantissa := body.takeWhile fun c => c ≠ 'e' ∧ c ≠ 'E'
  let exponent := body.drop (mantissa.length + 1)
  let whole := mantissa.takeWhile (· ≠ '.')
  let fraction := mantissa.drop (whole.length + 1)
  let hasExponent := mantissa.length < body.length
  let hasFraction := whole.length < mantissa.length
  body = "inf".toList || body = "nan".toList ||
    ((hasExponent || hasFraction) && isDecimal whole &&
      (!hasFraction || isDigits Char.isDigit fraction) &&
      (!hasExponent || isDigits Char.isDigit (withoutSign exponent)) &&
      let scale := digitsValue 10 (withoutSign exponent)
      let (up, down) := if exponent.head? = some '-' then (0, scale) else (scale, 0)
      fitsDouble (digitsValue 10 (whole ++ fraction)) up
        (down + (fraction.filter (· ≠ '_')).length))

/-- A number of exactly `width` digits between two bounds. -/
def isField (width lo hi : Nat) (cs : List Char) : Bool :=
  let n := digitsValue 10 cs
  cs.length = width && cs.all Char.isDigit && lo ≤ n && n ≤ hi

/-- The number of days of a month. -/
def daysOfMonth (year month : Nat) : Nat :=
  if month = 2 then
    if year % 4 = 0 ∧ (year % 100 ≠ 0 ∨ year % 400 = 0) then 29 else 28
  else if month = 4 ∨ month = 6 ∨ month = 9 ∨ month = 11 then 30
  else 31

/-- A date: year, month and day. -/
def isDate (cs : List Char) : Bool :=
  let year := cs.take 4
  let month := (cs.drop 5).take 2
  cs.length = 10 && isField 4 0 9999 year && cs[4]? = some '-' && isField 2 1 12 month &&
    cs[7]? = some '-' &&
    isField 2 1 (daysOfMonth (digitsValue 10 year) (digitsValue 10 month)) (cs.drop 8)

/-- A time: hour and minute, and optionally the second, which may have a fraction. -/
def isTime (cs : List Char) : Bool :=
  isField 2 0 23 (cs.take 2) && cs[2]? = some ':' && isField 2 0 59 ((cs.drop 3).take 2) &&
    match cs.drop 5 with
    | [] => true
    | ':' :: rest =>
      isField 2 0 60 (rest.take 2) &&
        match rest.drop 2 with
        | [] => true
        | '.' :: digits => digits ≠ [] && digits.all Char.isDigit
        | _ => false
    | _ => false

/-- An offset from universal time. -/
def isOffset (cs : List Char) : Bool :=
  match cs with
  | [] | ['Z'] | ['z'] => true
  | sign :: rest =>
    (sign = '+' || sign = '-') && rest.length = 5 && isField 2 0 23 (rest.take 2) &&
      rest[2]? = some ':' && isField 2 0 59 (rest.drop 3)

/-- A date, a time, or both with an optional offset. -/
def isDateTime (cs : List Char) : Bool :=
  isDate cs || isTime cs ||
    (isDate (cs.take 10) && (cs[10]?.any fun c => c = 'T' || c = 't' || c = ' ') &&
      let rest := cs.drop 11
      let time := rest.takeWhile fun c => c.isDigit || c = ':' || c = '.'
      isTime time && isOffset (rest.drop time.length))

/-- Characters of values that are neither strings nor brackets. -/
def isAtomChar (c : Char) : Bool :=
  c.isAlphanum || c = '_' || c = '-' || c = '+' || c = '.' || c = ':'

/-- A number, a boolean or a date.  A blank may stand between a date and a time. -/
def atom : Reader Value
  | cs =>
    let first := cs.takeWhile isAtomChar
    let rest := cs.drop first.length
    let (word, rest) := match rest with
      | ' ' :: d :: more =>
        if isDate first && d.isDigit then
          let time := (d :: more).takeWhile isAtomChar
          (first ++ ' ' :: time, (d :: more).drop time.length)
        else (first, rest)
      | _ => (first, rest)
    if word = "true".toList || word = "false".toList || isInteger word || isFloat word ||
        isDateTime word then .ok (.atom, rest)
    else .error .badValue

-- ── Keys and values ──────────────────────────────────────────────────────────────

def isBareKeyChar (c : Char) : Bool := c.isAlphanum || c = '_' || c = '-'

/-- One part of a key: bare, or a string on one line. -/
def simpleKey : Reader String
  | '"' :: rest => do
    let (s, rest) ← lineString '"' rest.length rest
    pure (String.ofList s, rest)
  | '\'' :: rest => do
    let (s, rest) ← lineString '\'' rest.length rest
    pure (String.ofList s, rest)
  | cs =>
    match cs.takeWhile isBareKeyChar with
    | [] => .error .badKey
    | key => .ok (String.ofList key, cs.dropWhile isBareKeyChar)

/-- A key of parts between points. -/
def dottedKey : Nat → Reader (List String)
  | 0, _ => .error .badKey
  | n + 1, cs => do
    let (key, rest) ← simpleKey (skipBlanks cs)
    match skipBlanks rest with
    | '.' :: rest =>
      let (keys, rest) ← dottedKey n rest
      pure (key :: keys, rest)
    | rest => pure ([key], rest)

/-- How deep arrays and inline tables may nest, and how many parts a key may have. -/
def depthLimit : Nat := 80

/-- A key of at most as many parts as are allowed. -/
def key : Reader (List String)
  | cs => do
    let (parts, rest) ← dottedKey cs.length cs
    if parts.length ≤ depthLimit then pure (parts, rest) else .error .tooDeep

mutual

/-- A value.  Brackets and braces may nest in it to the depth `room`. -/
def value (room : Nat) : Nat → Reader Value
  | 0, _ => .error .unclosed
  | n + 1, cs =>
    match cs with
    | '"' :: rest => do
      let (s, rest) ← string '"' rest
      pure (.text s, rest)
    | '\'' :: rest => do
      let (s, rest) ← string '\'' rest
      pure (.text s, rest)
    | '[' :: rest =>
      match room with
      | 0 => .error .tooDeep
      | room + 1 => do
        let (items, rest) ← arrayItems room n rest
        pure (.list items, rest)
    | '\x7b' :: rest =>
      match room with
      | 0 => .error .tooDeep
      | room + 1 => do
        let (entries, rest) ← inlineEntries room n [] rest
        pure (.table (entriesValue entries), rest)
    | cs => atom cs

/-- The items of an array behind its opening bracket, through the closing one.  Lines may end
    anywhere between them, and a comma may follow the last. -/
def arrayItems (room : Nat) : Nat → Reader (List Value)
  | 0, _ => .error .unclosed
  | n + 1, cs =>
    match skipLines cs.length cs with
    | ']' :: rest => .ok ([], rest)
    | rest => do
      let (v, rest) ← value room n rest
      match skipLines rest.length rest with
      | ',' :: rest =>
        let (vs, rest) ← arrayItems room n rest
        pure (v :: vs, rest)
      | ']' :: rest => pure ([v], rest)
      | _ => .error .unclosed

/-- The entries of an inline table behind its opening brace or a comma, through the closing
    brace, added to those read before.  Lines may end anywhere between their parts, and a comma
    may follow the last. -/
def inlineEntries (room : Nat) : Nat → Entries → Reader Entries
  | 0, _, _ => .error .unclosed
  | n + 1, entries, cs =>
    match skipLines cs.length cs with
    | '\x7d' :: rest => .ok (entries, rest)
    | rest => do
      let (parts, rest) ← key rest
      match skipLines rest.length rest with
      | '=' :: rest =>
        let (v, rest) ← value room n (skipLines rest.length rest)
        let entries ← entries.insert parts v
        match skipLines rest.length rest with
        | ',' :: rest => inlineEntries room n entries rest
        | '\x7d' :: rest => pure (entries, rest)
        | _ => .error .unclosed
      | _ => .error .badKey

end

-- ── Documents ────────────────────────────────────────────────────────────────────

/-- A document while it is read: its entries, and the path of the last header. -/
structure Draft where
  entries : Entries
  path : List String

/-- A key, an equals sign and a value on a line. -/
def keyLine (d : Draft) (cs : List Char) : Except TomlError (Draft × List Char) := do
  let (parts, rest) ← key cs
  match rest with
  | '=' :: rest =>
    let (v, rest) ← value depthLimit (rest.length + 1) (skipBlanks rest)
    let entries ← d.entries.modify (·.insert parts v) d.path
    let rest ← endLine rest
    pure ({ d with entries }, rest)
  | _ => .error .badKey

/-- A header behind its opening brackets. -/
def headerLine (d : Draft) (repeated : Bool) (cs : List Char) :
    Except TomlError (Draft × List Char) := do
  let (path, rest) ← key cs
  let closing := if repeated then [']', ']'] else [']']
  if rest.take closing.length = closing then
    let last := path.getLast?.getD ""
    let opened := if repeated then Entries.openNext last else Entries.openTable last
    let entries ← d.entries.modify opened path.dropLast
    let rest ← endLine (rest.drop closing.length)
    pure (⟨entries, path⟩, rest)
  else .error .badKey

/-- Reads line after line. -/
def lines : Nat → Draft → List Char → Except TomlError Draft
  | 0, d, _ => .ok d
  | n + 1, d, cs =>
    match skipLines cs.length cs with
    | [] => .ok d
    | '[' :: '[' :: rest => do
      let (d, rest) ← headerLine d true rest
      lines n d rest
    | '[' :: rest => do
      let (d, rest) ← headerLine d false rest
      lines n d rest
    | rest => do
      let (d, rest) ← keyLine d rest
      lines n d rest

/-- The entries of the root table of a document.  A byte order mark may stand in front of
    it. -/
def read (text : String) : Except TomlError (List (String × Value)) := do
  let cs := match text.toList with
    | '\ufeff' :: rest => rest
    | cs => cs
  let d ← lines (cs.length + 1) ⟨[], []⟩ cs
  pure (entriesValue d.entries)

end DeclAtlas.Toml
