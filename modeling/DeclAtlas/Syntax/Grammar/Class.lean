import DeclAtlas.Syntax.Grammar.Type

/-!
# The grammar of classes and interfaces

Type parameters, heritage lists, class bodies, and the declarations made of them.  As in the
grammar of types, every token list is accepted, and a parser that reaches types has `call` in
their place.
-/

namespace DeclAtlas

-- ── Parts without types ──────────────────────────────────────────────────────────

/-- The names declared by type parameters behind an opening `<`, and the number of tokens
    through the closing `>`.  Constraints and defaults are read over; `expectName` says that
    the next word is a name.  The list is given up before a semicolon. -/
def typeParamNames (expectName : Bool) : List Lexeme → List String × Nat
  | [] => ([], 0)
  | l :: ls =>
    match l.token with
    | .greater => ([], 1)
    | .semicolon => ([], 0)
    | .less =>
      let k := angleExtent 1 0 ls
      let (names, n) := typeParamNames false (ls.drop k)
      (names, n + k + 1)
    | .openBrace | .openParen | .openBracket =>
      let k := bracketExtent 1 ls
      let (names, n) := typeParamNames false (ls.drop k)
      (names, n + k + 1)
    | .comma =>
      let (names, n) := typeParamNames true ls
      (names, n + 1)
    | .word w =>
      if expectName then
        let isModifier := ["in", "out", "const"].contains w &&
          (ls.head?.bind (·.token.word?)).isSome
        let (names, n) := typeParamNames isModifier ls
        (if isModifier then names else w :: names, n + 1)
      else
        let (names, n) := typeParamNames false ls
        (names, n + 1)
    | _ =>
      let (names, n) := typeParamNames false ls
      (names, n + 1)
termination_by ls => ls.length
decreasing_by all_goals simp only [List.length_drop, List.length_cons]; omega

/-- Words that modify a class member when a member name follows. -/
def memberModifiers : List String :=
  ["public", "private", "protected", "static", "readonly", "abstract", "declare", "override",
    "accessor", "async"]

/-- The modifiers in front of a class member. -/
def leadingMemberModifiers : List Lexeme → List String
  | l :: m :: rest =>
    match l.token with
    | .word w =>
      if memberModifiers.contains w && m.token.startsMemberName then
        w :: leadingMemberModifiers (m :: rest)
      else []
    | _ => []
  | _ => []

namespace Parser

/-- The names of type parameters, if there are any. -/
def typeParams : Parser (List String) := do
  if ← eat .less then taking (typeParamNames true)
  else pure []

end Parser

namespace Rule

open DeclAtlas.Parser

section Classes

variable (call : Callees)

-- ── Class members ────────────────────────────────────────────────────────────────

/-- A member of a class.  Something that is no member is a property without a name. -/
def classMemberBody : Parser Member := do
  let start := (← get).here
  skipDecorators
  let modifiers ← taking fun ls =>
    (leadingMemberModifiers ls, (leadingMemberModifiers ls).length)
  let isStatic := modifiers.contains "static"
  let c ← get
  if c.atWord "static" && c.sees 1 .openBrace then
    bump
    skipBrackets
    let c ← get
    pure ⟨.staticBlock, none, none, true, false, c.spanFrom start⟩
  else if c.atIndexSignature then call (indexSignature start isStatic)
  else
    let _ ← eat .star
    let accessor ← accessorKind
    let name ← memberName
    let optional ← eat .question
    let _ ← eat .bang
    let c ← get
    if c.isAt .less then skipAngles
    let c ← get
    if c.isAt .openParen then
      skipBrackets
      let type ← call annotatedResult
      let c ← get
      if c.isAt .openBrace then skipBrackets
      else
        let _ ← eat .semicolon
      let kind := accessor.getD (if name = some "constructor" then .constructor else .method)
      let c ← get
      pure ⟨kind, name, type, isStatic, optional, c.spanFrom start⟩
    else
      let type ← call annotated
      if ← eat .equals then skipInitializer
      let _ ← eat .semicolon
      let c ← get
      pure ⟨.property, name, type, isStatic, optional, c.spanFrom start⟩

/-- The members of a class behind the opening brace, through the closing one.  A member that
    takes no token is followed by one that is read over. -/
def classMembersBody : Parser (List Member) := do
  let c ← get
  match c.peek with
  | none => pure []
  | some .closeBrace =>
    bump
    pure []
  | some .semicolon =>
    bump
    call classMembers
  | _ =>
    let m ← classMemberBody call
    let c' ← get
    if c'.remaining = c.remaining then bump
    let ms ← call classMembers
    pure (m :: ms)

-- ── Heritage ─────────────────────────────────────────────────────────────────────

/-- An entry of a heritage list: a reference, or a call, whose result is not known. -/
def heritageBody : Parser Heritage := do
  let start ← get
  let t ← call referenceType
  let c ← get
  if c.isAt .openParen then
    skipBrackets
    let c ← get
    if c.isAt .less then skipAngles
    let c ← get
    pure ⟨c.textSince start, .other⟩
  else pure ⟨c.textSince start, t⟩

/-- Entries of a heritage list, between commas. -/
def heritageListBody : Parser (List Heritage) := do
  let h ← heritageBody call
  if ← eat .comma then
    let hs ← call heritageList
    pure (h :: hs)
  else pure [h]

/-- What a class extends and implements.  Of several classes to extend the last one counts;
    lists of interfaces are joined. -/
def classHeritageBody (parent : Option Heritage) (interfaces : List Heritage) :
    Parser (Option Heritage × List Heritage) := do
  if ← eatWord "extends" then
    let h ← heritageBody call
    call (classHeritage (some h) interfaces)
  else if ← eatWord "implements" then
    let hs ← call heritageList
    call (classHeritage parent (interfaces ++ hs))
  else pure (parent, interfaces)

-- ── Declarations ─────────────────────────────────────────────────────────────────

/-- A class that began at `start`, from the word `class` on. -/
def classDeclBody (modifiers : Modifiers) (start : Span) : Parser ClassDecl := do
  bump
  let c ← get
  let name ←
    if c.atWord "extends" || c.atWord "implements" then pure none
    else takeWord
  let params ← typeParams
  let (parent, interfaces) ← call (classHeritage none [])
  let members ← do
    if ← eat .openBrace then call classMembers
    else pure []
  let c ← get
  pure ⟨name, params, parent, interfaces, members, modifiers, c.spanFrom start⟩

/-- An interface that began at `start`, from the word `interface` on. -/
def interfaceDeclBody (modifiers : Modifiers) (start : Span) : Parser InterfaceDecl := do
  bump
  let name ← takeWord
  let params ← typeParams
  let parents ← do
    if ← eatWord "extends" then call heritageList
    else pure []
  let members ← do
    if ← eat .openBrace then call typeMembers
    else pure []
  let c ← get
  pure ⟨name.getD "", params, parents, members, modifiers, c.spanFrom start⟩

end Classes

end Rule

end DeclAtlas
