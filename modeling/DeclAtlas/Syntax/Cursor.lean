import DeclAtlas.Token.Lexeme

/-!
# Reading a token list

A `Cursor` stands between two tokens of a list: it knows the token before it and the tokens
after it.  A `Parser` reads from a cursor and leaves it further on; no parser ever fails, and
at the end of the list there is nothing left to read and nothing moves.

What a parser needs to know before it reads is asked of the cursor (`Cursor.peekAt`,
`Cursor.atWord`, …).  A reader that is a function of the tokens ahead, and says how many of
them it takes, becomes a parser by `Parser.taking`.
-/

namespace DeclAtlas

/-- A place between two tokens. -/
structure Cursor where
  /-- The token in front of the cursor; none at the start. -/
  prev   : Option Lexeme
  /-- The tokens behind the cursor. -/
  rest   : List Lexeme
  /-- Where the text ends. -/
  finish : Position
deriving Repr

namespace Cursor

/-- The cursor at the start of a token list. -/
def start (ts : TokenList) : Cursor := ⟨none, ts.lexemes, ts.finish⟩

/-- How many tokens are left. -/
def remaining (c : Cursor) : Nat := c.rest.length

-- ── Looking ahead ────────────────────────────────────────────────────────────────

/-- The token that `n` others precede. -/
def peekAt (c : Cursor) (n : Nat) : Option Token := c.rest[n]?.map (·.token)

/-- The next token. -/
def peek (c : Cursor) : Option Token := c.peekAt 0

/-- The token that `n` others precede is `t`. -/
def sees (c : Cursor) (n : Nat) (t : Token) : Bool := c.peekAt n == some t

/-- The next token is `t`. -/
def isAt (c : Cursor) (t : Token) : Bool := c.sees 0 t

/-- The token that `n` others precede is the word `w`. -/
def seesWord (c : Cursor) (n : Nat) (w : String) : Bool := c.sees n (.word w)

/-- The next token is the word `w`. -/
def atWord (c : Cursor) (w : String) : Bool := c.seesWord 0 w

/-- The token that `n` others precede is a word. -/
def seesAnyWord (c : Cursor) (n : Nat) : Bool := ((c.peekAt n).bind (·.word?)).isSome

/-- The token that `n` others precede is a word or a string. -/
def seesName (c : Cursor) (n : Nat) : Bool := ((c.peekAt n).bind (·.name?)).isSome

/-- A line break stands before the token that `n` others precede.  The end of the text counts
    as a line of its own. -/
def newlineBeforeAt (c : Cursor) (n : Nat) : Bool :=
  match c.rest[n]? with
  | some l => l.newlineBefore
  | none => true

/-- A line break stands before the next token. -/
def newlineBefore (c : Cursor) : Bool := c.newlineBeforeAt 0

/-- The span of the next token, or the empty span at the end of the text. -/
def here (c : Cursor) : Span :=
  match c.rest with
  | l :: _ => l.span
  | [] => .empty c.finish

-- ── Moving on ────────────────────────────────────────────────────────────────────

/-- The cursor behind the next token. -/
def bump (c : Cursor) : Cursor :=
  match c.rest with
  | l :: ls => { c with prev := some l, rest := ls }
  | [] => c

/-- The cursor behind the next `n` tokens, or at the end of the list if there are fewer. -/
def advance : Nat → Cursor → Cursor
  | 0, c => c
  | n + 1, c => advance n c.bump

/-- The span from the start of `s` to the end of the last token read. -/
def spanFrom (c : Cursor) (s : Span) : Span :=
  match c.prev with
  | some l => s.through l.span
  | none => s

/-- The text of the tokens read between an earlier cursor and this one. -/
def textSince (c earlier : Cursor) : String :=
  String.ofList (Lexeme.joinText (earlier.rest.take (earlier.remaining - c.remaining)))

@[simp] theorem rest_advance (n : Nat) (c : Cursor) : (c.advance n).rest = c.rest.drop n := by
  induction n generalizing c with
  | zero => rfl
  | succ n ih =>
      rw [advance, ih]
      cases h : c.rest with
      | nil => simp [bump, h]
      | cons l ls => simp [bump, h]

@[simp] theorem finish_advance (n : Nat) (c : Cursor) : (c.advance n).finish = c.finish := by
  induction n generalizing c with
  | zero => rfl
  | succ n ih =>
      rw [advance, ih]
      cases h : c.rest with
      | nil => simp [bump, h]
      | cons l ls => simp [bump, h]

end Cursor

/-- Reads a value and moves the cursor. -/
abbrev Parser := StateM Cursor

namespace Parser

/-- Moves behind the next token. -/
def bump : Parser Unit := modify Cursor.bump

/-- Moves over as many tokens as `extent` says of the tokens ahead. -/
def skip (extent : List Lexeme → Nat) : Parser Unit :=
  modify fun c => c.advance (extent c.rest)

/-- Reads a value that is a function of the tokens ahead, and moves over the tokens that it
    takes. -/
def taking (read : List Lexeme → α × Nat) : Parser α := do
  let c ← get
  let (a, n) := read c.rest
  set (c.advance n)
  pure a

/-- Moves over the token `t` if it is next, and says whether it was. -/
def eat (t : Token) : Parser Bool := do
  let c ← get
  if c.isAt t then
    bump
    pure true
  else pure false

/-- Moves over the word `w` if it is next, and says whether it was. -/
def eatWord (w : String) : Parser Bool := eat (.word w)

/-- Moves over the next token if it has a value under `f`, and gives that value. -/
def takeIf (f : Token → Option α) : Parser (Option α) := do
  let c ← get
  match c.peek.bind f with
  | some a =>
    bump
    pure (some a)
  | none => pure none

/-- Takes a word. -/
def takeWord : Parser (Option String) := takeIf Token.word?

/-- Takes a word or a string. -/
def takeName : Parser (Option String) := takeIf Token.name?

end Parser

/-!
## How far a construct reaches

Much of a text is read over: bracketed regions, argument lists in angle brackets, initial
values, decorators and statements without declarations.  The functions here say how many
tokens such a construct takes, as functions of the tokens alone.

The three kinds of brackets share one depth everywhere: a closing bracket of any kind closes
the last opened one of any kind.
-/

-- ── Bracketed regions ────────────────────────────────────────────────────────────

/-- The number of tokens up to and including the one that closes `depth` open brackets, or to
    the end of the list.  With no bracket open and none opening, it is the one token ahead. -/
def bracketExtent : Nat → List Lexeme → Nat
  | _, [] => 0
  | depth, l :: ls =>
    if l.token.opens then bracketExtent (depth + 1) ls + 1
    else if l.token.closes then
      if depth ≤ 1 then 1 else bracketExtent (depth - 1) ls + 1
    else if depth = 0 then 1
    else bracketExtent depth ls + 1

/-- The index of the token that closes the brackets opened so far; none if there is no such
    token, or if a bracket is closed that was never opened. -/
def closerIndex : Nat → List Lexeme → Option Nat
  | _, [] => none
  | depth, l :: ls =>
    if l.token.opens then (closerIndex (depth + 1) ls).map (· + 1)
    else if l.token.closes then
      match depth with
      | 0 => none
      | 1 => some 0
      | d + 2 => (closerIndex (d + 1) ls).map (· + 1)
    else (closerIndex depth ls).map (· + 1)

/-- The number of tokens up to and including the `>` that closes `angles` open angle brackets,
    while `depth` other brackets are open.  Angle brackets inside other brackets do not count.
    The region is given up before a semicolon or a closing brace. -/
def angleExtent : (angles depth : Nat) → List Lexeme → Nat
  | _, _, [] => 0
  | angles, 0, l :: ls =>
    if l.token = .less then angleExtent (angles + 1) 0 ls + 1
    else if l.token = .greater then
      if angles ≤ 1 then 1 else angleExtent (angles - 1) 0 ls + 1
    else if l.token.opens then angleExtent angles 1 ls + 1
    else if l.token = .semicolon ∨ l.token = .closeBrace then 0
    else angleExtent angles 0 ls + 1
  | angles, depth + 1, l :: ls =>
    if l.token.opens then angleExtent angles (depth + 2) ls + 1
    else if l.token.closes then angleExtent angles depth ls + 1
    else angleExtent angles (depth + 1) ls + 1

/-- The number of tokens before the first one outside brackets at which `stop` holds.  `stop`
    sees the token before, too; `prev` is the one before the list. -/
def outerExtent (stop : Option Token → Lexeme → Bool) : Option Token → Nat → List Lexeme → Nat
  | _, _, [] => 0
  | prev, 0, l :: ls =>
    if stop prev l then 0
    else outerExtent stop (some l.token) (if l.token.opens then 1 else 0) ls + 1
  | _, depth + 1, l :: ls =>
    let depth' :=
      if l.token.opens then depth + 2 else if l.token.closes then depth else depth + 1
    outerExtent stop (some l.token) depth' ls + 1

-- ── Dotted names and decorators ──────────────────────────────────────────────────

/-- The words that follow a name, each after a point.  They take two tokens each. -/
def qualifiers : List Lexeme → List String
  | p :: w :: rest =>
    match p.token, w.token with
    | .dot, .word s => s :: qualifiers rest
    | _, _ => []
  | _ => []

/-- The number of tokens of a decorator after its `@`: a dotted name and an argument list, each
    of which may be absent. -/
def decoratorExtent (ls : List Lexeme) : Nat :=
  let first := match ls with
    | l :: _ => if l.token.word?.isSome then 1 else 0
    | [] => 0
  let named := first + 2 * (qualifiers (ls.drop first)).length
  match ls.drop named with
  | l :: rest => if l.token = .openParen then named + bracketExtent 0 (l :: rest) else named
  | [] => named

/-- The number of tokens of the decorators ahead. -/
def decoratorsExtent : List Lexeme → Nat
  | [] => 0
  | l :: ls =>
    if l.token = .atSign then
      let n := decoratorExtent ls
      decoratorsExtent (ls.drop n) + n + 1
    else 0
termination_by ls => ls.length
decreasing_by simp only [List.length_drop, List.length_cons]; omega

-- ── Ends of statements and initial values ────────────────────────────────────────

/-- Words that begin a new statement when they stand first on a line. -/
def statementWords : List String :=
  ["import", "export", "class", "interface", "declare", "namespace", "module", "abstract",
    "function", "const", "let", "var", "type", "enum"]

/-- A line break separates a finished expression from a token that begins a statement. -/
def statementBoundary (prev : Option Token) (l : Lexeme) : Bool :=
  l.newlineBefore && prev.any Token.endsExpression &&
    match l.token with
    | .atSign => true
    | .word w => statementWords.contains w
    | _ => false

/-- A line break separates a finished expression from a token that begins a member. -/
def memberBoundary (prev : Option Token) (l : Lexeme) : Bool :=
  l.newlineBefore && prev.any Token.endsExpression &&
    match l.token with
    | .word _ | .privateName _ | .string _ | .atSign => true
    | _ => false

/-- Where a statement that is read over ends: before a closing brace or a semicolon, and before
    the next statement. -/
def endsStatement (prev : Option Token) (l : Lexeme) : Bool :=
  statementBoundary prev l || l.token == .closeBrace || l.token == .semicolon

/-- Where the initial value of a member ends. -/
def endsInitializer (prev : Option Token) (l : Lexeme) : Bool :=
  memberBoundary prev l || l.token == .closeBrace || l.token == .semicolon

-- ── The same as parsers ──────────────────────────────────────────────────────────

namespace Parser

/-- Moves over a bracketed region that starts at the cursor. -/
def skipBrackets : Parser Unit := skip (bracketExtent 0)

/-- Moves over a region in angle brackets that starts at the cursor. -/
def skipAngles : Parser Unit := skip (angleExtent 0 0)

/-- Moves to the end of a region in angle brackets whose first bracket has been read. -/
def skipAngleTail : Parser Unit := skip (angleExtent 1 0)

/-- Moves over decorators. -/
def skipDecorators : Parser Unit := skip decoratorsExtent

/-- Moves over the initial value of a member, and not over what ends it. -/
def skipInitializer : Parser Unit := do
  let c ← get
  skip (outerExtent endsInitializer (c.prev.map (·.token)) 0)

/-- Takes a dotted name; the empty text if no word is next. -/
def dottedName : Parser String := do
  let first ← takeWord
  let tail ← taking fun ls => (qualifiers ls, 2 * (qualifiers ls).length)
  pure (tail.foldl (fun name part => name ++ "." ++ part) (first.getD ""))

end Parser

end DeclAtlas
