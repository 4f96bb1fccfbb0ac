import DeclAtlas.Syntax.Cursor
import DeclAtlas.Syntax.Statement

/-!
# The grammar of types

Type annotations and the members of interfaces and type literals.  The parsers accept every
token list: a form that is not recognised is `TypeExpr.other` and takes no token.

The grammar is recursive through many nonterminals.  `Rule` names the parsers that take part in
the recursion, and the text of each, its body, has `call` in the place of all others: what a parser
does between two calls is said without saying how the calls are made.  The rules of types come
first, those of declarations and of statements in the modules that follow, and the last of them
ties the knot (`Rule.run`).
-/

namespace DeclAtlas

-- ── Looking ahead ────────────────────────────────────────────────────────────────

/-- A token that may begin the name of a member. -/
def Token.startsMemberName : Token → Bool
  | .word _ | .string _ | .number | .privateName _ | .openBracket | .star => true
  | _ => false

namespace Cursor

/-- The token that `n` others precede may begin the name of a member. -/
def seesMemberName (c : Cursor) (n : Nat) : Bool := (c.peekAt n).any Token.startsMemberName

/-- An index signature is next: a bracket, a word and a colon. -/
def atIndexSignature (c : Cursor) : Bool :=
  c.isAt .openBracket && c.seesAnyWord 1 && c.sees 2 .colon

/-- The parenthesis ahead opens the parameters of a function type. -/
def atFunctionType (c : Cursor) : Bool :=
  match closerIndex 0 c.rest with
  | some i => c.sees (i + 1) .arrow
  | none => false

/-- The brace ahead opens a mapped type. -/
def atMappedType (c : Cursor) : Bool :=
  let n :=
    if c.seesWord 1 "readonly" then 2
    else if c.sees 1 .operator && c.seesWord 2 "readonly" then 3
    else 1
  c.sees n .openBracket && c.seesWord (n + 2) "in"

/-- A label of a tuple element is next. -/
def atTupleLabel (c : Cursor) : Bool :=
  c.seesAnyWord 0 && (c.sees 1 .colon || (c.sees 1 .question && c.sees 2 .colon))

end Cursor

-- ── Parts that are no types themselves ───────────────────────────────────────────

namespace Parser

/-- The name of a member.  A computed name is read over and is none. -/
def memberName : Parser (Option String) := do
  let c ← get
  match c.rest with
  | [] => pure none
  | l :: _ =>
    match l.token with
    | .word w | .string w | .privateName w =>
      bump
      pure (some w)
    | .number =>
      bump
      pure (some (String.ofList l.text))
    | .openBracket =>
      skipBrackets
      pure none
    | _ => pure none

/-- The word `get` or `set` in front of a member name. -/
def accessorKind : Parser (Option MemberKind) := do
  let c ← get
  if c.atWord "get" && c.seesMemberName 1 then
    bump
    pure (some .getter)
  else if c.atWord "set" && c.seesMemberName 1 then
    bump
    pure (some .setter)
  else pure none

/-- The dotted tail of an imported type, with its type arguments. -/
def skipQualifiedTail : Parser Unit := do
  skip fun ls => 2 * (qualifiers ls).length
  let c ← get
  if c.isAt .less && !c.newlineBefore then skipAngles

end Parser

/-- What the brackets behind a type make of it.  An empty pair makes an array, any other an
    access that is not kept; brackets on a new line belong to something else.  Gives the type
    and the number of tokens read. -/
def bracketSuffixes (t : TypeExpr) : List Lexeme → TypeExpr × Nat
  | [] => (t, 0)
  | l :: ls =>
    if l.token = .openBracket ∧ l.newlineBefore = false then
      if ls.head?.map (·.token) = some .closeBracket then
        let (u, n) := bracketSuffixes (.array t) ls.tail
        (u, n + 2)
      else
        let k := bracketExtent 1 ls
        let (u, n) := bracketSuffixes .other (ls.drop k)
        (u, n + k + 1)
    else (t, 0)
termination_by ls => ls.length
decreasing_by
  · simp only [List.length_tail, List.length_cons]; omega
  · simp only [List.length_drop, List.length_cons]; omega

-- ── The rules ────────────────────────────────────────────────────────────────────

/-- The parsers that call one another, by what they read.  What each of them reads is said at its
    body. -/
inductive Rule : Type → Type
  | typeExpr : Rule TypeExpr
  | resultType : Rule TypeExpr
  | unionType : Rule TypeExpr
  | unionRest : Rule (List TypeExpr)
  | intersectionType : Rule TypeExpr
  | intersectionRest : Rule (List TypeExpr)
  | postfixType : Rule TypeExpr
  | primaryType : Rule TypeExpr
  | wordType (w : String) : Rule TypeExpr
  | referenceType : Rule TypeExpr
  | typeArgs : Rule (List TypeExpr)
  | functionType : Rule TypeExpr
  | tupleElements : Rule (List TypeExpr)
  | typeMembers : Rule (List Member)
  | typeMember : Rule (Option Member)
  | signature (kind : MemberKind) (start : Span) : Rule Member
  | indexSignature (start : Span) (isStatic : Bool) : Rule Member
  | annotated : Rule (Option TypeExpr)
  | annotatedResult : Rule (Option TypeExpr)
  | classMembers : Rule (List Member)
  | heritageList : Rule (List Heritage)
  | classHeritage (parent : Option Heritage) (interfaces : List Heritage) :
      Rule (Option Heritage × List Heritage)
  | statements (inBlock : Bool) : Rule (List Statement)
  | statement : Rule Statement
  | declaration (m : Modifiers) (start : Span) : Rule Statement
  | exportStatement (start : Span) : Rule Statement
  | namespaceDecl (name : String) (m : Modifiers) (start : Span) : Rule NamespaceDecl

/-- A parser for every rule. -/
abbrev Callees := ∀ {α : Type}, Rule α → Parser α

namespace Rule

open DeclAtlas.Parser

section Types

variable (call : Callees)

-- ── Types ────────────────────────────────────────────────────────────────────────

/-- A type. -/
def typeExprBody : Parser TypeExpr := do
  let t ← call unionType
  let c ← get
  if c.atWord "extends" && !c.newlineBefore then
    bump
    let _ ← call unionType
    if ← eat .question then
      let _ ← call typeExpr
      if ← eat .colon then
        let _ ← call typeExpr
    pure .other
  else pure t

/-- The type of a result, which may also be a predicate. -/
def resultTypeBody : Parser TypeExpr := do
  let c ← get
  if c.atWord "asserts" && c.seesAnyWord 1 && !c.seesWord 1 "is" then
    bump
    bump
    if ← eatWord "is" then
      let _ ← call typeExpr
    pure .other
  else if c.seesAnyWord 0 && c.seesWord 1 "is" then
    bump
    bump
    let _ ← call typeExpr
    pure .other
  else call typeExpr

/-- Parts with a sign between them, of which one may also stand in front of the first. -/
def chainBody (sign : Token) (part : Rule TypeExpr) (rest : Rule (List TypeExpr))
    (wrap : List TypeExpr → TypeExpr) : Parser TypeExpr := do
  let _ ← eat sign
  let first ← call part
  let c ← get
  if c.isAt sign then
    let rest ← call rest
    pure (wrap (first :: rest))
  else pure first

/-- Further parts, each behind the sign. -/
def chainRestBody (sign : Token) (part : Rule TypeExpr) (rest : Rule (List TypeExpr)) :
    Parser (List TypeExpr) := do
  if ← eat sign then
    let t ← call part
    let ts ← call rest
    pure (t :: ts)
  else pure []

/-- A type with the brackets behind it. -/
def postfixTypeBody : Parser TypeExpr := do
  let t ← call primaryType
  taking (bracketSuffixes t)

/-- A type that is no union, no intersection and no array. -/
def primaryTypeBody : Parser TypeExpr := do
  let c ← get
  match c.rest with
  | [] => pure .other
  | l :: _ =>
    match l.token with
    | .openParen =>
      if c.atFunctionType then call functionType
      else
        bump
        let inner ← call typeExpr
        let _ ← eat .closeParen
        pure (.paren inner)
    | .less => call functionType
    | .openBrace =>
      if c.atMappedType then
        skipBrackets
        pure .other
      else
        bump
        let ms ← call typeMembers
        pure (.members ms)
    | .openBracket =>
      bump
      let ts ← call tupleElements
      pure (.tuple ts)
    | .string s =>
      bump
      pure (.literal s)
    | .template | .number =>
      bump
      pure (.literal (String.ofList l.text))
    | .operator =>
      if c.sees 1 .number then
        bump
        bump
        let c' ← get
        pure (.literal (c'.textSince c))
      else pure .other
    | .word w => call (wordType w)
    | _ => pure .other

/-- A type that begins with the word `w`. -/
def wordTypeBody (w : String) : Parser TypeExpr := do
  let c ← get
  if w = "typeof" then
    bump
    let c ← get
    if c.atWord "import" then
      bump
      let c ← get
      if c.isAt .openParen then skipBrackets
      skipQualifiedTail
      pure .other
    else
      let name ← dottedName
      let c ← get
      if c.isAt .less && !c.newlineBefore then
        bump
        let _ ← call typeArgs
      pure (.query name)
  else if w = "keyof" ∨ w = "unique" then
    bump
    let _ ← call postfixType
    pure .other
  else if w = "readonly" then
    bump
    call postfixType
  else if w = "infer" then
    bump
    let _ ← takeWord
    pure .other
  else if w = "new" then
    bump
    call functionType
  else if w = "abstract" ∧ c.seesWord 1 "new" then
    bump
    bump
    call functionType
  else if w = "import" ∧ c.sees 1 .openParen then
    bump
    skipBrackets
    skipQualifiedTail
    pure .other
  else if w = "true" ∨ w = "false" then
    bump
    pure (.literal w)
  else
    match Keyword.ofWord? w with
    | some k =>
      if c.sees 1 .dot then call referenceType
      else
        bump
        pure (.keyword k)
    | none => call referenceType

/-- A dotted name with its type arguments, which must not stand on a new line. -/
def referenceTypeBody : Parser TypeExpr := do
  let c ← get
  if c.seesAnyWord 0 then
    let name ← dottedName
    let c ← get
    if c.isAt .less && !c.newlineBefore then
      bump
      let args ← call typeArgs
      pure (.reference name args)
    else pure (.reference name [])
  else pure .other

/-- Type arguments behind an opening `<`, through the closing `>`.  An argument that takes no
    token ends the list, and the rest of it is read over. -/
def typeArgsBody : Parser (List TypeExpr) := do
  if ← eat .greater then pure []
  else
    let before ← get
    if before.remaining = 0 then pure []
    else
      let t ← call typeExpr
      if ← eat .comma then
        let ts ← call typeArgs
        pure (t :: ts)
      else
        if ← eat .greater then pure [t]
        else
          let c ← get
          if c.remaining = before.remaining then skipAngleTail
          pure [t]

/-- A function type: type parameters, parameters and a result, each of which may be absent. -/
def functionTypeBody : Parser TypeExpr := do
  let c ← get
  if c.isAt .less then skipAngles
  let c ← get
  if c.isAt .openParen then skipBrackets
  if ← eat .arrow then
    let _ ← call resultType
  pure .function

/-- The elements of a tuple behind its opening bracket, through the closing one.  The list is
    given up before a semicolon or a closing brace; an element that takes no token is read
    over. -/
def tupleElementsBody : Parser (List TypeExpr) := do
  let c ← get
  match c.peek with
  | none | some .closeBrace | some .semicolon => pure []
  | some .closeBracket =>
    bump
    pure []
  | some .comma | some .ellipsis =>
    bump
    call tupleElements
  | _ =>
    if c.atTupleLabel then
      bump
      let _ ← eat .question
      let _ ← eat .colon
    let before ← get
    let t ← call typeExpr
    let _ ← eat .question
    let c ← get
    if c.remaining = before.remaining then bump
    let ts ← call tupleElements
    pure (t :: ts)

-- ── Members of types ─────────────────────────────────────────────────────────────

/-- The members of an interface or a type literal behind the opening brace, through the closing
    one.  A member that takes no token is read over. -/
def typeMembersBody : Parser (List Member) := do
  let c ← get
  match c.peek with
  | none => pure []
  | some .closeBrace =>
    bump
    pure []
  | some .semicolon | some .comma =>
    bump
    call typeMembers
  | _ =>
    let m ← call typeMember
    let c' ← get
    if c'.remaining = c.remaining then bump
    let ms ← call typeMembers
    pure (m.toList ++ ms)

/-- A member of an interface or a type literal; none if no name is found. -/
def typeMemberBody : Parser (Option Member) := do
  let c ← get
  let start := c.here
  if c.isAt .openParen || c.isAt .less then
    let m ← call (signature .callSignature start)
    pure (some m)
  else if c.atWord "new" && (c.sees 1 .openParen || c.sees 1 .less) then
    bump
    let m ← call (signature .constructSignature start)
    pure (some m)
  else
    if c.atWord "readonly" && c.seesMemberName 1 then bump
    let c ← get
    if c.isAt .openBracket then
      let m ← call (indexSignature start false)
      pure (some m)
    else
      let accessor ← accessorKind
      match ← memberName with
      | none => pure none
      | some name =>
        let optional ← eat .question
        let c ← get
        if c.isAt .less then skipAngles
        let c ← get
        if c.isAt .openParen then
          skipBrackets
          let type ← call annotatedResult
          let c ← get
          pure (some ⟨accessor.getD .methodSignature, some name, type, false, optional,
            c.spanFrom start⟩)
        else
          let type ← call annotated
          let c ← get
          pure (some ⟨.propertySignature, some name, type, false, optional,
            c.spanFrom start⟩)

/-- A call or construct signature that began at `start`. -/
def signatureBody (kind : MemberKind) (start : Span) : Parser Member := do
  let c ← get
  if c.isAt .less then skipAngles
  let c ← get
  if c.isAt .openParen then skipBrackets
  let type ← call annotatedResult
  let c ← get
  pure ⟨kind, none, type, false, false, c.spanFrom start⟩

/-- An index signature that began at `start`, from its bracket on. -/
def indexSignatureBody (start : Span) (isStatic : Bool) : Parser Member := do
  skipBrackets
  let optional ← eat .question
  let type ← call annotated
  let c ← get
  pure ⟨.indexer, none, type, isStatic, optional, c.spanFrom start⟩

/-- A colon and what `part` reads, if there is a colon. -/
def annotationBody (part : Rule TypeExpr) : Parser (Option TypeExpr) := do
  if ← eat .colon then
    let t ← call part
    pure (some t)
  else pure none

end Types

end Rule

end DeclAtlas
