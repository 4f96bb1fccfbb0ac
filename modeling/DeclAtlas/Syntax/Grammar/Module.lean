import DeclAtlas.Syntax.Cursor
import DeclAtlas.Syntax.Grammar.Class
import DeclAtlas.Syntax.Statement

/-!
# The grammar of modules

Statement lists, and the namespaces that hold statement lists again.  With their bodies all rules
have one, and `Rule.run` makes them call one another, each on a budget that drops by one with every
call.  Between two calls on the same tokens only few rules follow one another, so a budget
proportional to the number of tokens is never exhausted; `Cursor.budget` gives one.

`parse` reads a whole text: it gives one statement for every stretch of tokens, whether it is
understood or not, and reads to the end of every text.
-/

namespace DeclAtlas

/-!
## Imports and exports

Element lists between braces, import statements, and the part of an export statement behind
the word `export` that holds no declaration.
-/

/-- One element that begins with a name at `l`: an optional word `type`, a name, and an
    optional new name behind the word `as`, for which `alias?` says which tokens may stand
    there.  Gives the element and the number of tokens behind `l` that belong to it. -/
def specifierAt (alias? : Token → Option String) (l : Lexeme) (ls : List Lexeme) :
    Specifier × Nat :=
  let next := ls.head?.map (·.token)
  let typeOnly := l.token = .word "type" ∧ (next.bind Token.name?).isSome ∧
    next ≠ some (.word "as")
  let own := if typeOnly then next else some l.token
  let name := (own.bind Token.name?).getD ""
  let k := if typeOnly then 1 else 0
  match ls.drop k with
  | a :: rest =>
    if a.token = .word "as" then
      match rest.head?.bind (alias? ·.token) with
      | some new => (⟨new, some name, decide typeOnly⟩, k + 2)
      | none => (⟨name, some name, decide typeOnly⟩, k + 1)
    else (⟨name, none, decide typeOnly⟩, k)
  | [] => (⟨name, none, decide typeOnly⟩, k)

/-- The elements behind an opening brace, and the number of tokens through the closing one.
    What is no name is read over. -/
def specifiers (alias? : Token → Option String) : List Lexeme → List Specifier × Nat
  | [] => ([], 0)
  | l :: ls =>
    if l.token = .closeBrace then ([], 1)
    else if l.token.name?.isSome then
      let (s, k) := specifierAt alias? l ls
      let (rest, n) := specifiers alias? (ls.drop k)
      (s :: rest, n + k + 1)
    else
      let (rest, n) := specifiers alias? ls
      (rest, n + 1)
termination_by ls => ls.length
decreasing_by all_goals simp only [List.length_drop, List.length_cons]; omega

namespace Parser

/-- Moves over a statement that holds nothing to keep. -/
def skipStatement (start : Span) : Parser Statement := do
  skip (outerExtent endsStatement none 0)
  let _ ← eat .semicolon
  let c ← get
  pure (.other (c.spanFrom start))

/-- Moves over import attributes. -/
def skipAttributes : Parser Unit := do
  let c ← get
  if (c.atWord "assert" || c.atWord "with") && !c.newlineBefore && c.sees 1 .openBrace then
    bump
    skipBrackets

/-- The string that is next, if one is. -/
def takeString : Parser (Option String) :=
  takeIf fun
    | .string s => some s
    | _ => none

/-- Moves over what may end an import or an export. -/
def endClause : Parser Unit := do
  skipAttributes
  let _ ← eat .semicolon
  pure ()

/-- The word `type` behind the word `import` says that only types are imported. -/
def atImportType (c : Cursor) : Bool :=
  c.atWord "type" &&
    (c.sees 1 .openBrace || c.sees 1 .star ||
      (c.seesAnyWord 1 && (c.sees 2 .comma || c.sees 2 .equals || c.seesWord 2 "from")))

/-- What an import binds behind its default. -/
def importBindings : Parser (Option Bindings) := do
  if ← eat .star then
    let _ ← eatWord "as"
    let name ← takeWord
    pure (name.map .whole)
  else if ← eat .openBrace then
    let elements ← taking (specifiers Token.word?)
    pure (some (.named elements))
  else pure none

/-- The rest of an import that binds something: `bindings`, the word `from` and a module. -/
def importFrom (start : Span) (typeOnly : Bool) (defaultName : Option String) :
    Parser Statement := do
  let bindings ← importBindings
  if ← eatWord "from" then
    match ← takeString with
    | some specifier =>
      endClause
      let c ← get
      pure (.importing ⟨specifier, some ⟨defaultName, bindings⟩, typeOnly, c.spanFrom start⟩)
    | none => skipStatement start
  else skipStatement start

/-- An import statement that began at `start`, from the word `import` on.  Calls of `import`,
    its meta property and import assignments are other statements. -/
def importStatement (start : Span) : Parser Statement := do
  let c ← get
  if c.sees 1 .openParen || c.sees 1 .dot then skipStatement start
  else
    bump
    let typeOnly := atImportType (← get)
    if typeOnly then bump
    match ← takeString with
    | some specifier =>
      endClause
      let c ← get
      pure (.importing ⟨specifier, none, typeOnly, c.spanFrom start⟩)
    | none =>
      let c ← get
      let fromNext := c.atWord "from" &&
        match c.peekAt 1 with
        | some (.string _) => true
        | _ => false
      if c.seesAnyWord 0 && !fromNext then
        let defaultName ← takeWord
        let c ← get
        if c.isAt .equals then skipStatement start
        else
          let _ ← eat .comma
          importFrom start typeOnly defaultName
      else importFrom start typeOnly none

/-- The rest of an export of names, behind its clause. -/
def exportFrom (start : Span) (typeOnly : Bool) (clause : Option ExportClause) :
    Parser Statement := do
  let specifier ← do
    if ← eatWord "from" then takeString
    else pure none
  endClause
  let c ← get
  pure (.exporting ⟨clause, specifier, typeOnly, c.spanFrom start⟩)

/-- An export of names, if one is next: a star, a star with a name, or elements in braces. -/
def exportNames? (start : Span) (typeOnly : Bool) : Parser (Option Statement) := do
  if ← eat .star then
    if ← eatWord "as" then
      let name ← takeName
      let s ← exportFrom start typeOnly (some (.whole (name.getD "")))
      pure (some s)
    else
      let s ← exportFrom start typeOnly none
      pure (some s)
  else if ← eat .openBrace then
    let elements ← taking (specifiers Token.name?)
    let s ← exportFrom start typeOnly (some (.named elements))
    pure (some s)
  else pure none

end Parser

/-! ## Statements -/

/-- The modifiers in front of a declaration, decorators among them, added to `m`, and the
    number of tokens that they take.  The word `declare` is a modifier if a word follows on
    the same line, and `abstract` if the word `class` follows. -/
def leadingModifiers (m : Modifiers) : List Lexeme → Modifiers × Nat
  | [] => (m, 0)
  | l :: ls =>
    let next := ls.head?
    if l.token = .atSign then
      let k := decoratorExtent ls
      let (m', n) := leadingModifiers m (ls.drop k)
      (m', n + k + 1)
    else if l.token = .word "declare" ∧ next.any (fun x => x.token.word?.isSome && !x.newlineBefore)
    then
      let (m', n) := leadingModifiers { m with ambient := true } ls
      (m', n + 1)
    else if l.token = .word "abstract" ∧ next.map (·.token) = some (.word "class") then
      let (m', n) := leadingModifiers { m with isAbstract := true } ls
      (m', n + 1)
    else (m, 0)
termination_by ls => ls.length
decreasing_by all_goals simp only [List.length_drop, List.length_cons]; omega

namespace Rule

open DeclAtlas.Parser

section Statements

variable (call : Callees)

/-- Statements to the end of the text or, in a block, to the closing brace, which is not read.
    Semicolons between statements are no statements.  A closing brace outside a block is a
    statement of its own. -/
def statementsBody (inBlock : Bool) : Parser (List Statement) := do
  let c ← get
  match c.peek with
  | none => pure []
  | some .semicolon =>
    bump
    call (statements inBlock)
  | some .closeBrace =>
    if inBlock then pure []
    else
      bump
      let ss ← call (statements inBlock)
      pure (.other c.here :: ss)
  | _ =>
    let s ← call statement
    let c' ← get
    if c'.remaining = c.remaining then bump
    let ss ← call (statements inBlock)
    pure (s :: ss)

/-- A statement. -/
def statementBody : Parser Statement := do
  let start := (← get).here
  skipDecorators
  let c ← get
  if c.atWord "import" then importStatement start
  else if c.atWord "export" then call (exportStatement start)
  else call (declaration {} start)

/-- A class, an interface or a namespace that began at `start`, with the modifiers `m` read so
    far; anything else is read over as one statement. -/
def declarationBody (m : Modifiers) (start : Span) : Parser Statement := do
  let m ← taking (leadingModifiers m)
  let c ← get
  if c.atWord "class" then
    let d ← classDeclBody call m start
    pure (.declaration (.ofClass d))
  else if c.atWord "interface" && c.seesAnyWord 1 then
    let d ← interfaceDeclBody call m start
    pure (.declaration (.ofInterface d))
  else if (c.atWord "namespace" || c.atWord "module") && c.seesName 1 &&
      !c.newlineBeforeAt 1 then
    bump
    let name ← takeName
    let d ← call (namespaceDecl (name.getD "") m start)
    pure (.scope d)
  else if c.atWord "global" && m.ambient && c.sees 1 .openBrace then
    bump
    let d ← call (namespaceDecl "global" m start)
    pure (.scope d)
  else skipStatement start

/-- An export that began at `start`, from the word `export` on. -/
def exportStatementBody (start : Span) : Parser Statement := do
  bump
  let c ← get
  if c.isAt .equals || c.atWord "import" || (c.atWord "as" && c.seesWord 1 "namespace") then
    skipStatement start
  else if ← eatWord "default" then
    call (declaration { exported := true, isDefault := true } start)
  else
    let typeOnly := c.atWord "type" && (c.sees 1 .openBrace || c.sees 1 .star)
    if typeOnly then bump
    match ← exportNames? start typeOnly with
    | some s => pure s
    | none => call (declaration { exported := true } start)

/-- A namespace that began at `start`, behind its name.  A dotted name goes on with a namespace
    inside, which has the same modifiers. -/
def namespaceDeclBody (name : String) (m : Modifiers) (start : Span) : Parser NamespaceDecl := do
  if ← eat .dot then
    let innerStart := (← get).here
    let innerName ← takeWord
    let inner ← call (namespaceDecl (innerName.getD "") m innerStart)
    let c ← get
    pure ⟨name, .nested inner, m, c.spanFrom start⟩
  else if ← eat .openBrace then
    let ss ← call (statements true)
    let _ ← eat .closeBrace
    let c ← get
    pure ⟨name, .block ss, m, c.spanFrom start⟩
  else
    let _ ← eat .semicolon
    let c ← get
    pure ⟨name, .absent, m, c.spanFrom start⟩

end Statements

-- ── All rules ────────────────────────────────────────────────────────────────────

variable {α : Type}

/-- What a rule says, with `call` for all parsers that it calls. -/
def body (call : Callees) : Rule α → Parser α
  | typeExpr => typeExprBody call
  | resultType => resultTypeBody call
  | unionType => chainBody call .bar intersectionType unionRest .union
  | unionRest => chainRestBody call .bar intersectionType unionRest
  | intersectionType => chainBody call .ampersand postfixType intersectionRest .intersection
  | intersectionRest => chainRestBody call .ampersand postfixType intersectionRest
  | postfixType => postfixTypeBody call
  | primaryType => primaryTypeBody call
  | wordType w => wordTypeBody call w
  | referenceType => referenceTypeBody call
  | typeArgs => typeArgsBody call
  | functionType => functionTypeBody call
  | tupleElements => tupleElementsBody call
  | typeMembers => typeMembersBody call
  | typeMember => typeMemberBody call
  | signature kind start => signatureBody call kind start
  | indexSignature start isStatic => indexSignatureBody call start isStatic
  | annotated => annotationBody call typeExpr
  | annotatedResult => annotationBody call resultType
  | classMembers => classMembersBody call
  | heritageList => heritageListBody call
  | classHeritage parent interfaces => classHeritageBody call parent interfaces
  | statements inBlock => statementsBody call inBlock
  | statement => statementBody call
  | declaration m start => declarationBody call m start
  | exportStatement start => exportStatementBody call start
  | namespaceDecl name m start => namespaceDeclBody call name m start

/-- What a parser gives if nothing is left to spend: it reads no token. -/
def spent : Rule α → Parser α
  | typeExpr | resultType | unionType | intersectionType | postfixType | primaryType | wordType _
  | referenceType => pure .other
  | functionType => pure .function
  | unionRest | intersectionRest | typeArgs | tupleElements => pure []
  | typeMembers | classMembers => pure []
  | typeMember => pure none
  | signature kind start => pure ⟨kind, none, none, false, false, start⟩
  | indexSignature start isStatic => pure ⟨.indexer, none, none, isStatic, false, start⟩
  | annotated | annotatedResult => pure none
  | heritageList => pure []
  | classHeritage parent interfaces => pure (parent, interfaces)
  | statements _ => pure []
  | statement => do
    let c ← get
    pure (.other c.here)
  | declaration _ start | exportStatement start => pure (.other start)
  | namespaceDecl name m start => pure ⟨name, .absent, m, start⟩

/-- The parser of a rule, on a budget for the calls that follow one another. -/
def run : Nat → ∀ {α : Type}, Rule α → Parser α
  | 0, _, r => r.spent
  | n + 1, _, r => r.body (run n)

/-- With one unit of budget more than they have, a parser does what its rule says of the others. -/
theorem run_succ (n : Nat) (r : Rule α) : run (n + 1) r = r.body (run n) := rfl

end Rule

/-- A budget for reading everything behind the cursor. -/
def Cursor.budget (c : Cursor) : Nat := 16 * (c.remaining + 2)

/-- The statements of a text. -/
def parse (text : String) : List Statement :=
  let c := Cursor.start (tokenize text)
  (Rule.run c.budget (.statements false) c).1

end DeclAtlas
