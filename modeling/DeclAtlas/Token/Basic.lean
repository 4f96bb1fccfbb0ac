/-!
# Tokens of a declaration text

The vocabulary that the declaration grammar reads.  Words stay words: a keyword is
recognised by its text where the grammar expects it, never by the lexer.  Every operator
that plays no part in a declaration is one `operator`, and a character that begins no token
is `unknown`, so that every text has a token list.
-/

namespace DeclAtlas

/-- A token, with its value where the grammar looks at one. -/
inductive Token
  /-- An identifier or a keyword. -/
  | word (text : String)
  /-- A private name, its `#` included. -/
  | privateName (text : String)
  /-- A string literal, without its quotes and with its escapes decoded. -/
  | string (value : String)
  | template
  | number
  | openBrace
  | closeBrace
  | openParen
  | closeParen
  | openBracket
  | closeBracket
  | less
  | greater
  | comma
  | semicolon
  | colon
  | dot
  | ellipsis
  | question
  | equals
  | arrow
  | star
  | ampersand
  | bar
  | bang
  | atSign
  | operator
  | unknown
deriving DecidableEq, Repr, Inhabited

namespace Token

/-- An opening brace, parenthesis or bracket. -/
def opens : Token → Bool
  | openBrace | openParen | openBracket => true
  | _ => false

/-- A closing brace, parenthesis or bracket. -/
def closes : Token → Bool
  | closeBrace | closeParen | closeBracket => true
  | _ => false

/-- The text of a word. -/
def word? : Token → Option String
  | word w => some w
  | _ => none

/-- The value of a word or a string literal: what may name an import, an export or an
    ambient module. -/
def name? : Token → Option String
  | word w | string w => some w
  | _ => none

/-- Tokens after which an expression may be complete. -/
def endsExpression : Token → Bool
  | word _ | privateName _ | string _ | number | template
  | closeParen | closeBracket | closeBrace => true
  | _ => false

end Token

end DeclAtlas

namespace DeclAtlas.Quoted

/-!
## Quoted text

String literals between `"` or `'`.  `scan` measures how much of a text belongs to a literal
whose opening quote has just been read, and says whether its closing quote was found;
`decode` gives the value of the text between the quotes.
-/

/-- The length of a literal after its opening quote `q`, and whether it is closed.  A literal
    is made of characters other than the quote, the backslash and the line feed, and of pairs
    of a backslash and any character.  One that is never closed ends before the first line
    feed, or before a backslash that nothing follows. -/
def scan (q : Char) : List Char → Nat × Bool
  | [] => (0, false)
  | c :: cs =>
    if c = q then (1, true)
    else if c = '\n' then (0, false)
    else if c = '\\' then
      match cs with
      | [] => (0, false)
      | _ :: rest => ((scan q rest).1 + 2, (scan q rest).2)
    else ((scan q cs).1 + 1, (scan q cs).2)

/-- What a backslash and the given character stand for.  A line feed continues the literal on
    the next line and adds nothing. -/
def escaped : Char → List Char
  | 'n' => ['\n']
  | 'r' => ['\r']
  | 't' => ['\t']
  | '0' => ['\x00']
  | '\n' => []
  | c => [c]

/-- The value of the text between two quotes.  A last backslash without a character is
    dropped. -/
def decode : List Char → List Char
  | [] => []
  | c :: cs =>
    if c = '\\' then
      match cs with
      | [] => []
      | d :: rest => escaped d ++ decode rest
    else c :: decode cs

end DeclAtlas.Quoted

namespace DeclAtlas.Template

/-!
## Template literals

A template runs from a backtick to the next backtick that belongs to it.  Between them stand
characters, escapes, and substitutions from a dollar sign and a brace to the matching brace;
a substitution may hold braces, quoted strings and further templates, which may hold
substitutions again.

`closing` reads such a text with a stack of the constructs that are still open (`Frame`).
Each character is read in the innermost open construct alone, which decides what takes the
place of that construct on the stack (`Frame.step`); the template ends when the stack is
empty.
-/

/-- A construct that is open while a template is read. -/
inductive Frame
  /-- The text of a template. -/
  | body
  /-- A backslash that waits for its character. -/
  | escape
  /-- The dollar sign of a substitution that waits for its brace. -/
  | dollar
  /-- Braces inside a substitution, or the substitution itself. -/
  | braces
  /-- A string literal inside a substitution. -/
  | quoted (quote : Char)
deriving DecidableEq, Repr

/-- What stands in place of the innermost frame after the character `c`, which `next`
    follows.  A dollar sign opens a substitution only in front of a brace. -/
def Frame.step (c : Char) (next : Option Char) : Frame → List Frame
  | .body =>
    if c = '\x60' then []
    else if c = '\\' then [.escape, .body]
    else if c = '$' ∧ next = some '\x7b' then [.dollar, .body]
    else [.body]
  | .escape => []
  | .dollar => [.braces]
  | .braces =>
    if c = '\x7b' then [.braces, .braces]
    else if c = '\x7d' then []
    else if c = '\x60' then [.body, .braces]
    else if c = '"' ∨ c = '\'' then [.quoted c, .braces]
    else [.braces]
  | .quoted q =>
    if c = q then []
    else if c = '\\' then [.escape, .quoted q]
    else [.quoted q]

/-- The number of characters up to and including the one that closes every frame, if the text
    has one. -/
def closing : List Frame → List Char → Option Nat
  | [], _ => some 0
  | _ :: _, [] => none
  | f :: fs, c :: cs => (closing (f.step c cs.head? ++ fs) cs).map (· + 1)

/-- The length of a template after its opening backtick.  A template that is never closed
    takes the rest of the text. -/
def extent (cs : List Char) : Nat := (closing [.body] cs).getD cs.length

end DeclAtlas.Template
