import DeclAtlas.Token.Basic

/-!
# Cutting a text into placed tokens

A text is cut into segments, and the tokens among them are placed: a `Lexeme` knows its own text,
the blanks and comments in front of it, and its span.
-/

namespace DeclAtlas

/-!
## Positions and spans

Where a token, a member or a statement stands in its text.  A `Position` counts UTF-8 bytes
from the start of the text and carries the 1-based line and column of the character that
follows it; a `Span` is a position together with the byte offset at which the covered text
ends.

Positions are only ever produced by walking over characters (`Position.after`), and walking
over a concatenation is walking over its parts (`Position.after_append`), so the position of
a token is a function of the text in front of it.
-/

/-- A place in a text: the number of UTF-8 bytes before it, and the 1-based line and column
    of the character that follows.  Columns count characters of any width. -/
structure Position where
  offset : Nat
  line   : Nat
  column : Nat
deriving DecidableEq, Repr, Inhabited

namespace Position

/-- The place before the first character of a text. -/
def origin : Position := ⟨0, 1, 1⟩

/-- The place after one more character.  Only a line feed starts a line; a carriage return
    or a tab is one column like any other character. -/
def next (p : Position) (c : Char) : Position :=
  if c = '\n' then ⟨p.offset + c.utf8Size, p.line + 1, 1⟩
  else ⟨p.offset + c.utf8Size, p.line, p.column + 1⟩

/-- The place after a run of characters. -/
def after (p : Position) (cs : List Char) : Position := cs.foldl next p

@[simp] theorem after_nil (p : Position) : p.after [] = p := rfl

@[simp] theorem after_cons (p : Position) (c : Char) (cs : List Char) :
    p.after (c :: cs) = (p.next c).after cs := rfl

/-- Walking over a concatenation is walking over its parts in turn. -/
theorem after_append (p : Position) (xs ys : List Char) :
    p.after (xs ++ ys) = (p.after xs).after ys := by
  simp [after, List.foldl_append]

/-- A character moves the offset by its width, whatever it does to line and column. -/
@[simp] theorem offset_next (p : Position) (c : Char) :
    (p.next c).offset = p.offset + c.utf8Size := by
  unfold next
  split <;> rfl

end Position

/-- A stretch of text: where it starts, and the byte offset at which it stops. -/
structure Span where
  start : Position
  stop  : Nat
deriving DecidableEq, Repr, Inhabited

namespace Span

/-- The empty span at a position. -/
def empty (p : Position) : Span := ⟨p, p.offset⟩

/-- The span from the start of `s` to the end of `last`, and never one that ends before it
    starts. -/
def through (s last : Span) : Span := { s with stop := max last.stop s.start.offset }

end Span

/-!
## Cutting a text into segments

Every text is a sequence of segments: blanks and comments, which only separate, and tokens.
`front` says what stands at the front of a non-empty text and how far it reaches; it always
takes the longest piece of the class that the first characters select.  `segments` repeats
this to the end, and loses nothing: the segments concatenate to the text
(`flatten_segments`).
-/

-- ── Character classes ────────────────────────────────────────────────────────────

/-- Blanks between tokens: space, tab, line feed, carriage return, form feed, no-break space
    and byte order mark. -/
def isBlank (c : Char) : Bool :=
  c = ' ' || c = '\t' || c = '\n' || c = '\r' || c = '\x0c' || c = '\u00a0' || c = '\ufeff'

/-- Characters that may begin a word: ASCII letters, underscore and dollar sign. -/
def isWordStart (c : Char) : Bool := c.isAlpha || c = '_' || c = '$'

/-- Characters that may continue a word. -/
def isWordPart (c : Char) : Bool := isWordStart c || c.isDigit

/-- Characters of a number after its first digit, the point apart. -/
def isNumberPart (c : Char) : Bool := c.isAlphanum || c = '_'

-- ── What stands at the front of a text ───────────────────────────────────────────

/-- The class of a segment. -/
inductive Shape
  /-- A run of blanks, or a comment. -/
  | gap
  | word
  | privateName
  | quoted
  /-- A token that carries no value. -/
  | plain (token : Token)
deriving DecidableEq, Repr

/-- The token that a segment of this class and text stands for. -/
def Shape.token? (text : List Char) : Shape → Option Token
  | .gap => none
  | .word => some (.word (String.ofList text))
  | .privateName => some (.privateName (String.ofList text))
  | .quoted => some (.string (String.ofList (Quoted.decode text.tail.dropLast)))
  | .plain t => some t

/-- The length of a comment to the end of its line, the line feed not included. -/
def lineExtent (cs : List Char) : Nat := (cs.takeWhile (· ≠ '\n')).length

/-- The length of a block comment after its opening, through the first `*/` or, if there is
    none, to the end of the text. -/
def blockExtent : List Char → Nat
  | [] => 0
  | c :: cs => if c = '*' ∧ cs.head? = some '/' then 2 else blockExtent cs + 1

/-- The length of a number after its first digit: letters, digits and underscores, and at
    most one point, which more of these may follow. -/
def numberExtent (cs : List Char) : Nat :=
  let whole := (cs.takeWhile isNumberPart).length
  match cs.dropWhile isNumberPart with
  | '.' :: rest => whole + 1 + (rest.takeWhile isNumberPart).length
  | _ => whole

/-- What begins with a slash. -/
def frontSlash : List Char → Shape × Nat
  | '/' :: rest => (.gap, lineExtent rest + 1)
  | '*' :: rest => (.gap, blockExtent rest + 1)
  | _ => (.plain .operator, 0)

/-- What begins with a number sign: a comment, a private name, or nothing known. -/
def frontHash : List Char → Shape × Nat
  | '!' :: rest => (.gap, lineExtent rest + 1)
  | c :: rest =>
    if isWordStart c then (.privateName, (rest.takeWhile isWordPart).length + 1)
    else (.plain .unknown, 0)
  | [] => (.plain .unknown, 0)

/-- What begins with a point: a number, an ellipsis or the point alone. -/
def frontDot : List Char → Shape × Nat
  | '.' :: '.' :: _ => (.plain .ellipsis, 2)
  | c :: rest =>
    if c.isDigit then (.plain .number, (rest.takeWhile isNumberPart).length + 1)
    else (.plain .dot, 0)
  | [] => (.plain .dot, 0)

/-- What begins with the quote `q`: a literal or, if that is never closed, the part of it that
    can be read. -/
def frontQuote (q : Char) (cs : List Char) : Shape × Nat :=
  let (n, closed) := Quoted.scan q cs
  (if closed then .quoted else .plain .unknown, n)

/-- What begins with an equals sign. -/
def frontEquals : List Char → Shape × Nat
  | '>' :: _ => (.plain .arrow, 1)
  | _ => (.plain .equals, 0)

/-- The token of a character that always stands alone. -/
def loneToken : Char → Token
  | '\x7b' => .openBrace
  | '\x7d' => .closeBrace
  | '(' => .openParen
  | ')' => .closeParen
  | '[' => .openBracket
  | ']' => .closeBracket
  | '<' => .less
  | '>' => .greater
  | ',' => .comma
  | ';' => .semicolon
  | ':' => .colon
  | '?' => .question
  | '*' => .star
  | '&' => .ampersand
  | '|' => .bar
  | '!' => .bang
  | '@' => .atSign
  | '-' | '+' | '%' | '^' | '~' => .operator
  | _ => .unknown

/-- The class of the segment at the front of the text `c :: cs`, and how many characters of
    `cs` belong to it. -/
def front (c : Char) (cs : List Char) : Shape × Nat :=
  if isBlank c then (.gap, (cs.takeWhile isBlank).length)
  else if isWordStart c then (.word, (cs.takeWhile isWordPart).length)
  else if c.isDigit then (.plain .number, numberExtent cs)
  else if c = '/' then frontSlash cs
  else if c = '#' then frontHash cs
  else if c = '.' then frontDot cs
  else if c = '=' then frontEquals cs
  else if c = '"' ∨ c = '\'' then frontQuote c cs
  else if c = '\x60' then (.plain .template, Template.extent cs)
  else (.plain (loneToken c), 0)

-- ── Segments ─────────────────────────────────────────────────────────────────────

/-- A piece of a text and its class. -/
structure Segment where
  shape : Shape
  text  : List Char
deriving DecidableEq, Repr

/-- The token that the segment stands for; none for blanks and comments. -/
def Segment.token? (s : Segment) : Option Token := s.shape.token? s.text

/-- The segments of a text, from front to back. -/
def segments : List Char → List Segment
  | [] => []
  | c :: cs =>
    let (shape, n) := front c cs
    ⟨shape, c :: cs.take n⟩ :: segments (cs.drop n)
termination_by cs => cs.length
decreasing_by simp only [List.length_drop, List.length_cons]; omega

/-- Cutting a text into segments loses nothing of it. -/
theorem flatten_segments (cs : List Char) : ((segments cs).map Segment.text).flatten = cs := by
  fun_induction segments cs with
  | case1 => rfl
  | case2 c cs shape n _ ih => simp [ih]

/-- Induction for what is read part by part: behind a first element, the claim may be used for
    whatever is left when some more has been read. -/
@[elab_as_elim]
theorem suffix_induction {α : Type} {motive : List α → Prop} (nil : motive [])
    (cons : ∀ a l, (∀ m, m <:+ l → motive m) → motive (a :: l)) (l : List α) : motive l := by
  suffices h : ∀ m, m <:+ l → motive m from h l List.suffix_rfl
  induction l with
  | nil =>
      intro m hm
      rw [List.suffix_nil.mp hm]
      exact nil
  | cons a l ih =>
      intro m hm
      rcases List.suffix_cons_iff.mp hm with rfl | hm
      · exact cons a l ih
      · exact ih m hm

/-!
## Placed tokens

A `Lexeme` is a token together with its place: its own text, the blanks and comments in front
of it, and its span.  `tokenize` cuts a text into segments and places the tokens among them;
what follows the last token is kept beside them in the `TokenList`.
-/

/-- A token at its place in a text. -/
structure Lexeme where
  token : Token
  /-- The blanks and comments between the previous token and this one. -/
  gap   : List Char
  /-- The text of the token itself. -/
  text  : List Char
  span  : Span
deriving DecidableEq, Repr

namespace Lexeme

/-- A line break, possibly inside a comment, stands between the previous token and this
    one. -/
def newlineBefore (l : Lexeme) : Bool := l.gap.contains '\n'

/-- The text of a run of neighbouring lexemes, from the start of the first to the end of the
    last. -/
def joinText : List Lexeme → List Char
  | [] => []
  | l :: ls => l.text ++ ls.flatMap fun m => m.gap ++ m.text

end Lexeme

/-- The tokens of a text, what follows the last of them, and where the text ends. -/
structure TokenList where
  lexemes : List Lexeme
  trail   : List Char
  finish  : Position
deriving DecidableEq, Repr

/-- Places segments one after the other: `p` is where the pending gap starts. -/
def TokenList.place (p : Position) (gap : List Char) : List Segment → TokenList
  | [] => ⟨[], gap, p.after gap⟩
  | s :: ss =>
    match s.token? with
    | none => place p (gap ++ s.text) ss
    | some t =>
      let start := p.after gap
      let stop := start.after s.text
      let rest := place stop [] ss
      { rest with lexemes := ⟨t, gap, s.text, ⟨start, stop.offset⟩⟩ :: rest.lexemes }

/-- The tokens of a text.  Every text has some, well-formed or not. -/
def tokenize (text : String) : TokenList :=
  TokenList.place .origin [] (segments text.toList)

end DeclAtlas
