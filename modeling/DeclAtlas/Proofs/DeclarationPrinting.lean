import DeclAtlas.Proofs.ImportPrinting
import DeclAtlas.Proofs.TypePrinting

/-!
# Declarations as text

Classes, interfaces and namespaces are written as they are read, each on a line of its own.  A
`Draft` is what is written of one: the bounds and defaults of its type parameters, which are not
kept by the grammar, and else what the declaration says.  Heritage entries keep how they are
written, so what a draft declares (`Draft.statement`) depends on the kind of quotes.

Members may have any names, also those of modifiers and accessors; a name that is no word and no
private name is written between quotes.  `Draft.Printable` says which drafts can be told apart from
all others, and what is written of them is legible (`Draft.Printable.legible`).
-/

namespace DeclAtlas

-- ── Members ──────────────────────────────────────────────────────────────────────

/-- The name of a member, as it is where it is a word or a private name. -/
def memberNamePiece (name : String) : Piece :=
  if isIdentifier name then .word name
  else if isPrivateName name then .privateName name
  else .string name

/-- A colon and a type, if there is one. -/
def colonPieces : Option TypeExpr → List Piece
  | none => []
  | some t => .sign ':' :: .space :: t.pieces

/-- Parentheses and a type, each of which may be absent. -/
def callPieces (callable : Bool) (type : Option TypeExpr) : List Piece :=
  (if callable then [.sign '(', .sign ')'] else []) ++ colonPieces type

/-- What follows the name of a member. -/
def signaturePieces (optional callable : Bool) (type : Option TypeExpr) : List Piece :=
  (if optional then [.sign '?'] else []) ++ callPieces callable type

/-- What stands in front of the name of an accessor. -/
def MemberKind.pieces : MemberKind → List Piece
  | .getter => [.word "get", .space]
  | .setter => [.word "set", .space]
  | _ => []

/-- Members of this kind have parentheses behind their names. -/
def MemberKind.isCallable : MemberKind → Bool
  | .property | .propertySignature => false
  | _ => true

/-- A member without the word `static` and the semicolon. -/
def Member.clause (m : Member) : List Piece :=
  match m.kind with
  | .indexer =>
    [.sign '[', .word "k", .sign ':', .space, .word "string", .sign ']'] ++ colonPieces m.type
  | .callSignature => signaturePieces m.optional true m.type
  | .constructSignature => .word "new" :: .space :: signaturePieces m.optional true m.type
  | .staticBlock => [.sign '\x7b', .space, .sign '\x7d']
  | kind =>
    kind.pieces ++ memberNamePiece (m.name.getD "") ::
      signaturePieces m.optional kind.isCallable m.type

/-- A member of a class or an interface, through its semicolon. -/
def Member.line (m : Member) : List Piece :=
  (if m.isStatic then [.word "static", .space] else []) ++ (m.clause ++ [.sign ';', .space])

/-- Members between braces. -/
def bodyPieces (ms : List Member) : List Piece :=
  .sign '\x7b' :: .space :: (ms.flatMap Member.line ++ [.sign '\x7d'])

/-- What a type begins with that is read as a predicate where a result is expected. -/
def predicateHead : List Piece := [.word "typeof", .space, .word "is"]

/-- A type that may stand behind a colon; where it is a result, it must not look like a predicate,
    as only queries do (`Canonical.annotates`). -/
structure TypeExpr.Annotates (callable : Bool) (t : TypeExpr) : Prop where
  canonical : Canonical .any t
  result : callable = true → ¬ predicateHead <+: t.pieces

/-- Members of classes that can be read back. -/
inductive Member.OfClass : Member → Prop
  | property {name : String} {type : Option TypeExpr} {isStatic optional : Bool} {span : Span} :
      (∀ t ∈ type, t.Annotates false) →
      OfClass ⟨.property, some name, type, isStatic, optional, span⟩
  | method {name : String} {type : Option TypeExpr} {isStatic optional : Bool} {span : Span} :
      name ≠ "constructor" → (∀ t ∈ type, t.Annotates true) →
      OfClass ⟨.method, some name, type, isStatic, optional, span⟩
  | getter {name : String} {type : Option TypeExpr} {isStatic : Bool} {span : Span} :
      (∀ t ∈ type, t.Annotates true) → OfClass ⟨.getter, some name, type, isStatic, false, span⟩
  | setter {name : String} {type : Option TypeExpr} {isStatic : Bool} {span : Span} :
      (∀ t ∈ type, t.Annotates true) → OfClass ⟨.setter, some name, type, isStatic, false, span⟩
  | indexer {t : TypeExpr} {isStatic : Bool} {span : Span} : t.Annotates false →
      OfClass ⟨.indexer, none, some t, isStatic, false, span⟩
  | constructor {span : Span} : OfClass ⟨.constructor, some "constructor", none, false, false, span⟩
  | staticBlock {span : Span} : OfClass ⟨.staticBlock, none, none, true, false, span⟩

/-- Members of interfaces that can be read back. -/
inductive Member.OfInterface : Member → Prop
  | property {name : String} {type : Option TypeExpr} {optional : Bool} {span : Span} :
      (∀ t ∈ type, t.Annotates false) →
      OfInterface ⟨.propertySignature, some name, type, false, optional, span⟩
  | method {name : String} {type : Option TypeExpr} {optional : Bool} {span : Span} :
      (name = "new" → optional = true) → (∀ t ∈ type, t.Annotates true) →
      OfInterface ⟨.methodSignature, some name, type, false, optional, span⟩
  | getter {name : String} {type : Option TypeExpr} {span : Span} :
      (∀ t ∈ type, t.Annotates true) → OfInterface ⟨.getter, some name, type, false, false, span⟩
  | setter {name : String} {type : Option TypeExpr} {span : Span} :
      (∀ t ∈ type, t.Annotates true) → OfInterface ⟨.setter, some name, type, false, false, span⟩
  | indexer {t : TypeExpr} {span : Span} : t.Annotates false →
      OfInterface ⟨.indexer, none, some t, false, false, span⟩
  | call {type : Option TypeExpr} {span : Span} : (∀ t ∈ type, t.Annotates true) →
      OfInterface ⟨.callSignature, none, type, false, false, span⟩
  | construct {type : Option TypeExpr} {span : Span} : (∀ t ∈ type, t.Annotates true) →
      OfInterface ⟨.constructSignature, none, type, false, false, span⟩

-- ── Heads of declarations ────────────────────────────────────────────────────────

/-- A type parameter as it is written. -/
structure TypeParam where
  name : String
  bound : Option TypeExpr
  default : Option TypeExpr
deriving Repr

namespace TypeParam

def boundPieces (p : TypeParam) : List Piece :=
  match p.bound with
  | none => []
  | some t => .space :: .word "extends" :: .space :: t.pieces

def defaultPieces (p : TypeParam) : List Piece :=
  match p.default with
  | none => []
  | some t => .space :: .equals :: .space :: t.pieces

def pieces (p : TypeParam) : List Piece := .word p.name :: (p.boundPieces ++ p.defaultPieces)

/-- A parameter whose name is a word, and none that could mark the name behind it. -/
structure Printable (p : TypeParam) : Prop where
  name : isIdentifier p.name = true
  notVariance : p.name ∉ ["in", "out", "const"]
  bound : ∀ t ∈ p.bound, Canonical .any t
  default : ∀ t ∈ p.default, Canonical .any t

/-- Type parameters behind the first one. -/
def piecesAfter (ps : List TypeParam) : List Piece := ps.flatMap fun p => commas ++ p.pieces

/-- Type parameters between angle brackets, if there are any. -/
def listPieces : List TypeParam → List Piece
  | [] => []
  | p :: ps => .sign '<' :: (p.pieces ++ (piecesAfter ps ++ [.sign '>']))

end TypeParam

/-- A type that a declaration may inherit from: a dotted name with its type arguments. -/
inductive TypeExpr.IsBase : TypeExpr → Prop
  | reference {name : String} {args : List TypeExpr} :
      (∀ w ∈ nameWords name, isIdentifier w = true) → (∀ t ∈ args, Canonical .any t) →
      IsBase (.reference name args)

/-- The heritage entry of a type, as it is written. -/
def TypeExpr.heritage (q : Quote) (t : TypeExpr) : Heritage :=
  ⟨String.ofList (Piece.print q t.pieces), t⟩

/-- A word and the types behind it, if there are any. -/
def basePieces (w : String) (ts : List TypeExpr) : List Piece :=
  if ts.isEmpty then [] else .space :: .word w :: .space :: typePieces commas ts

def Modifiers.pieces (m : Modifiers) : List Piece :=
  (if m.exported then [.word "export", .space] else []) ++
    ((if m.isDefault then [.word "default", .space] else []) ++
      ((if m.ambient then [.word "declare", .space] else []) ++
        (if m.isAbstract then [.word "abstract", .space] else [])))

-- ── Declarations ─────────────────────────────────────────────────────────────────

/-- A declaration as it is written. -/
inductive Draft
  | ofClass (modifiers : Modifiers) (name : Option String) (params : List TypeParam)
      (parent : Option TypeExpr) (interfaces : List TypeExpr) (members : List Member)
  | ofInterface (modifiers : Modifiers) (name : String) (params : List TypeParam)
      (parents : List TypeExpr) (members : List Member)
  /-- A namespace, or a module, with a block; `inner` are the further words of a dotted name. -/
  | scope (modifiers : Modifiers) (isModule : Bool) (name : String) (inner : List String)
      (block : List Draft)
  /-- A namespace or a module without a block. -/
  | bare (modifiers : Modifiers) (isModule : Bool) (name : String) (inner : List String)
  /-- What a module declares for all others. -/
  | global (modifiers : Modifiers) (block : List Draft)

/-- The head of a namespace or a module. -/
def scopePieces (m : Modifiers) (isModule : Bool) (name : String) (inner : List String) :
    List Piece :=
  m.pieces ++ .word (if isModule then "module" else "namespace") :: .space ::
    namePiece name :: (inner.flatMap fun v => [.dot, .word v])

mutual

def Draft.pieces : Draft → List Piece
  | .ofClass m name params parent interfaces members =>
    m.pieces ++ .word "class" ::
      ((name.toList.flatMap fun n => [.space, .word n]) ++
        (TypeParam.listPieces params ++ (basePieces "extends" parent.toList ++
          (basePieces "implements" interfaces ++ .space :: bodyPieces members))))
  | .ofInterface m name params parents members =>
    m.pieces ++ .word "interface" :: .space :: .word name ::
      (TypeParam.listPieces params ++ (basePieces "extends" parents ++
        .space :: bodyPieces members))
  | .scope m isModule name inner block =>
    scopePieces m isModule name inner ++ .space :: .sign '\x7b' :: .lineFeed ::
      (draftLines block ++ [.sign '\x7d'])
  | .bare m isModule name inner => scopePieces m isModule name inner ++ [.sign ';']
  | .global m block =>
    m.pieces ++ .word "global" :: .space :: .sign '\x7b' :: .lineFeed ::
      (draftLines block ++ [.sign '\x7d'])

/-- Each declaration on a line of its own. -/
def draftLines : List Draft → List Piece
  | [] => []
  | d :: ds => d.pieces ++ .lineFeed :: draftLines ds

end

/-- A namespace with a dotted name stands for nested ones with the same modifiers. -/
def NamespaceDecl.dotted (m : Modifiers) (body : NamespaceBody) :
    String → List String → NamespaceDecl
  | name, [] => ⟨name, body, m, .empty .origin⟩
  | name, v :: inner => ⟨name, .nested (dotted m body v inner), m, .empty .origin⟩

mutual

/-- What a draft declares, at the start of the text. -/
def Draft.statement (q : Quote) : Draft → Statement
  | .ofClass m name params parent interfaces members =>
    .declaration (.ofClass ⟨name, params.map (·.name), parent.map (·.heritage q),
      interfaces.map (·.heritage q), members, m, .empty .origin⟩)
  | .ofInterface m name params parents members =>
    .declaration (.ofInterface ⟨name, params.map (·.name), parents.map (·.heritage q), members, m,
      .empty .origin⟩)
  | .scope m _ name inner block =>
    .scope (NamespaceDecl.dotted m (.block (draftStatements q block)) name inner)
  | .bare m _ name inner => .scope (NamespaceDecl.dotted m .absent name inner)
  | .global m block =>
    .scope (NamespaceDecl.dotted m (.block (draftStatements q block)) "global" [])

def draftStatements (q : Quote) : List Draft → List Statement
  | [] => []
  | d :: ds => d.statement q :: draftStatements q ds

end

/-- Modifiers that can be written: what is the default is exported. -/
def Modifiers.Printable (m : Modifiers) : Prop := m.isDefault = true → m.exported = true

/-- Declarations that can be read back. -/
inductive Draft.Printable : Draft → Prop
  | ofClass {m : Modifiers} {name : Option String} {params : List TypeParam}
      {parent : Option TypeExpr} {interfaces : List TypeExpr} {members : List Member} :
      m.Printable →
      (∀ n ∈ name, isIdentifier n = true ∧ n ≠ "extends" ∧ n ≠ "implements") →
      (∀ p ∈ params, p.Printable) → (∀ t ∈ parent, t.IsBase) → (∀ t ∈ interfaces, t.IsBase) →
      (∀ x ∈ members, x.OfClass) →
      Printable (.ofClass m name params parent interfaces members)
  | ofInterface {m : Modifiers} {name : String} {params : List TypeParam}
      {parents : List TypeExpr} {members : List Member} :
      m.Printable → m.isAbstract = false → isIdentifier name = true →
      (∀ p ∈ params, p.Printable) → (∀ t ∈ parents, t.IsBase) → (∀ x ∈ members, x.OfInterface) →
      Printable (.ofInterface m name params parents members)
  | scope {m : Modifiers} {isModule : Bool} {name : String} {inner : List String}
      {block : List Draft} :
      m.Printable → m.isAbstract = false → (∀ v ∈ inner, isIdentifier v = true) →
      (∀ d ∈ block, Printable d) → Printable (.scope m isModule name inner block)
  | bare {m : Modifiers} {isModule : Bool} {name : String} {inner : List String} :
      m.Printable → m.isAbstract = false → (∀ v ∈ inner, isIdentifier v = true) →
      Printable (.bare m isModule name inner)
  | global {m : Modifiers} {block : List Draft} :
      m.Printable → m.isAbstract = false → m.ambient = true →
      (∀ d ∈ block, Printable d) → Printable (.global m block)

-- ── Types without queries ────────────────────────────────────────────────────────

mutual

/-- The type is a query, or has one in it. -/
def TypeExpr.hasQuery : TypeExpr → Bool
  | .query _ => true
  | .reference _ args => anyQuery args
  | .array t => t.hasQuery
  | .tuple ts => anyQuery ts
  | .union ts => anyQuery ts
  | .intersection ts => anyQuery ts
  | .members ms => anyMemberQuery ms
  | .paren t => t.hasQuery
  | .keyword _ | .literal _ | .function | .other => false

def anyQuery : List TypeExpr → Bool
  | [] => false
  | t :: ts => t.hasQuery || anyQuery ts

def anyMemberQuery : List Member → Bool
  | [] => false
  | m :: ms => m.hasQuery || anyMemberQuery ms

def Member.hasQuery : Member → Bool
  | ⟨_, _, type, _, _, _⟩ => optionalQuery type

def optionalQuery : Option TypeExpr → Bool
  | none => false
  | some t => t.hasQuery

end

/-- Only queries begin with `typeof`. -/
theorem Canonical.head_ne_typeof {level : Level} {t : TypeExpr} (h : Canonical level t) :
    t.hasQuery = false → t.pieces.head? ≠ some (.word "typeof") := by
  have hparts {sep : List Piece} {ts : List TypeExpr} (hlength : 2 ≤ ts.length)
      (hsep : ∀ ts, (piecesAfter sep ts).head? ≠ some (.word "typeof"))
      (ih : ∀ t ∈ ts, t.hasQuery = false → t.pieces.head? ≠ some (.word "typeof"))
      (hquery : anyQuery ts = false) : (typePieces sep ts).head? ≠ some (.word "typeof") := by
    cases ts with
    | nil => exact absurd hlength (by decide)
    | cons t ts =>
        rw [anyQuery, Bool.or_eq_false_iff] at hquery
        rw [typePieces, List.head?_append]
        intro hhead
        rcases Option.or_eq_some_iff.mp hhead with hhead | ⟨-, hhead⟩
        · exact ih t (List.mem_cons_self ..) hquery.1 hhead
        · exact hsep ts hhead
  have hspaced (sign : Char) (ts : List TypeExpr) :
      (piecesAfter (spaced sign) ts).head? ≠ some (.word "typeof") := by
    cases ts <;> rintro ⟨⟩
  induction h with
  | keyword k => cases k <;> exact fun _ => by decide
  | @reference name args hname _ _ =>
      intro _ hhead
      obtain ⟨w, ws, hws⟩ := List.exists_cons_of_ne_nil (nameWords_ne_nil name)
      rw [pieces_reference, hws] at hhead
      obtain rfl : w = "typeof" := by simpa [dottedPieces] using hhead
      exact hname.first "typeof" (by simp [hws]) (by decide)
  | array _ ih =>
      intro hquery hhead
      rw [TypeExpr.pieces, List.head?_append] at hhead
      rcases Option.or_eq_some_iff.mp hhead with hhead | ⟨-, hhead⟩
      · exact ih hquery hhead
      · cases hhead
  | tuple | literal | members | paren | function => rintro - ⟨⟩
  | query => rintro ⟨⟩
  | ofOperand _ ih | ofIntersection _ ih | ofUnion _ ih => exact ih
  | intersection hlength _ ih => exact hparts hlength (hspaced '&') ih
  | union hlength _ ih => exact hparts hlength (hspaced '|') ih

/-- A type without queries may stand behind every colon. -/
theorem Canonical.annotates {t : TypeExpr} (h : Canonical .any t) (hquery : t.hasQuery = false)
    (callable : Bool) : t.Annotates callable := by
  refine ⟨h, fun _ hprefix => h.head_ne_typeof hquery ?_⟩
  obtain ⟨ps, hps⟩ := hprefix
  rw [← hps]
  rfl

-- ── What is written is legible ───────────────────────────────────────────────────

/-- The type of a member of a class, where it has one, is canonical. -/
theorem Member.OfClass.canonical {m : Member} (h : m.OfClass) : ∀ t ∈ m.type, Canonical .any t := by
  cases h with
  | property h | getter h | setter h => exact fun t ht => (h t ht).canonical
  | method _ h => exact fun t ht => (h t ht).canonical
  | indexer h =>
      rintro _ ⟨⟩
      exact h.canonical
  | constructor | staticBlock => exact nofun

theorem Member.OfInterface.canonical {m : Member} (h : m.OfInterface) :
    ∀ t ∈ m.type, Canonical .any t := by
  cases h with
  | property h | getter h | setter h | call h | construct h => exact fun t ht => (h t ht).canonical
  | method _ h => exact fun t ht => (h t ht).canonical
  | indexer h =>
      rintro _ ⟨⟩
      exact h.canonical

section Legible

variable {q : Quote}

/-- The name of a member, as a word, as a private name or between quotes. -/
theorem Piece.Legible.memberName {ps : List Piece} (name : String)
    (hends : EndsWord (Piece.print q ps)) (h : Piece.Legible q ps) :
    Piece.Legible q (memberNamePiece name :: ps) := by
  unfold memberNamePiece
  split
  · next hname => exact .word hname hends h
  · split
    · next hname => exact .privateName hname hends h
    · exact .string name h

/-- The colon ends what is in front of it, so the type behind it may be absent. -/
theorem legible_colonPieces {type : Option TypeExpr} (htype : ∀ t ∈ type, Canonical .any t) :
    LegibleBehind q (colonPieces type) := by
  intro ps hends h
  cases type with
  | none => exact ⟨hends, h⟩
  | some t => exact ⟨rfl, .sign (by decide) (.space ((htype t rfl).legible q hends h))⟩

/-- Parentheses are signs, which need nothing around them. -/
theorem legible_callPieces (callable : Bool) {type : Option TypeExpr}
    (htype : ∀ t ∈ type, Canonical .any t) : LegibleBehind q (callPieces callable type) := by
  intro ps hends h
  have htype := legible_colonPieces htype hends h
  rw [callPieces, List.append_assoc]
  cases callable with
  | false => exact htype
  | true => exact ⟨rfl, .sign (by decide) (.sign (by decide) htype.2)⟩

/-- What follows the name of a member: a question mark, parentheses and a type, each of which may be
    absent. -/
theorem legible_signaturePieces (optional callable : Bool) {type : Option TypeExpr}
    (htype : ∀ t ∈ type, Canonical .any t) :
    LegibleBehind q (signaturePieces optional callable type) := by
  intro ps hends h
  have hcall := legible_callPieces callable htype hends h
  rw [signaturePieces, List.append_assoc]
  cases optional with
  | false => exact hcall
  | true => exact ⟨rfl, .sign (by decide) hcall.2⟩

/-- A member of any kind is legible where its type is canonical. -/
theorem Member.legible_clause {m : Member} (htype : ∀ t ∈ m.type, Canonical .any t) :
    LegibleBefore q m.clause := by
  intro ps hends h
  have hsignature (callable : Bool) := legible_signaturePieces m.optional callable htype hends h
  have hnamed (callable : Bool) := Piece.Legible.memberName (m.name.getD "") (hsignature callable).1
    (hsignature callable).2
  unfold Member.clause
  cases m.kind with
  | property | propertySignature => exact hnamed false
  | method | methodSignature | constructor => exact hnamed true
  | getter | setter => exact .word rfl rfl (.space (hnamed true))
  | indexer =>
      obtain ⟨-, hcolon⟩ := legible_colonPieces htype hends h
      exact .sign (by decide) (.word rfl rfl (.sign (by decide) (.space (.word rfl rfl
        (.sign (by decide) hcolon)))))
  | callSignature => exact (hsignature true).2
  | constructSignature => exact .word rfl rfl (.space (hsignature true).2)
  | staticBlock => exact .sign (by decide) (.space (.sign (by decide) h))

/-- Through its semicolon, a member is legible in front of anything. -/
theorem Member.legible_line {m : Member} (htype : ∀ t ∈ m.type, Canonical .any t)
    {ps : List Piece} (h : Piece.Legible q ps) : Piece.Legible q (m.line ++ ps) := by
  have hend : Piece.Legible q (.sign ';' :: .space :: ps) := .sign (by decide) (.space h)
  have hends : EndsWord (Piece.print q (.sign ';' :: .space :: ps)) := rfl
  have hclause := Member.legible_clause htype hends hend
  rw [Member.line, List.append_assoc, List.append_assoc]
  cases m.isStatic with
  | false => exact hclause
  | true => exact .word rfl rfl (.space hclause)

theorem legible_bodyPieces {ms : List Member} (hms : ∀ m ∈ ms, ∀ t ∈ m.type, Canonical .any t)
    {ps : List Piece} (h : Piece.Legible q ps) : Piece.Legible q (bodyPieces ms ++ ps) := by
  have hlines : Piece.Legible q (ms.flatMap Member.line ++ .sign '\x7d' :: ps) := by
    induction ms with
    | nil => exact .sign (by decide) h
    | cons m ms ih =>
        obtain ⟨hm, hms⟩ := List.forall_mem_cons.mp hms
        rw [List.flatMap_cons, List.append_assoc]
        exact Member.legible_line hm (ih hms)
  rw [bodyPieces, List.cons_append, List.cons_append, List.append_assoc]
  exact .sign (by decide) (.space hlines)

/-- A type parameter with its bound and its default. -/
theorem TypeParam.Printable.legible {p : TypeParam} (hp : p.Printable) :
    LegibleBefore q p.pieces := by
  intro ps hends h
  have hdefault : EndsWord (Piece.print q (p.defaultPieces ++ ps)) ∧
      Piece.Legible q (p.defaultPieces ++ ps) := by
    unfold defaultPieces
    cases hd : p.default with
    | none => exact ⟨hends, h⟩
    | some t => exact ⟨rfl, .space (.equals ((hp.default t hd).legible q hends h))⟩
  have hbound : EndsWord (Piece.print q (p.boundPieces ++ (p.defaultPieces ++ ps))) ∧
      Piece.Legible q (p.boundPieces ++ (p.defaultPieces ++ ps)) := by
    unfold boundPieces
    cases hb : p.bound with
    | none => exact hdefault
    | some t =>
        exact ⟨rfl, .space (.word rfl rfl (.space
          ((hp.bound t hb).legible q hdefault.1 hdefault.2)))⟩
  rw [pieces, List.cons_append, List.append_assoc]
  exact .word hp.name hbound.1 hbound.2

/-- Further type parameters, each behind a comma. -/
theorem TypeParam.legible_piecesAfter {params : List TypeParam}
    (hparams : ∀ p ∈ params, p.Printable) :
    LegibleBehind q (TypeParam.piecesAfter params) := by
  intro ps hends h
  induction params with
  | nil => exact ⟨hends, h⟩
  | cons p params ih =>
      obtain ⟨hp, hparams⟩ := List.forall_mem_cons.mp hparams
      obtain ⟨hends', h'⟩ := ih hparams
      rw [TypeParam.piecesAfter, List.flatMap_cons, List.append_assoc, List.append_assoc]
      exact ⟨rfl, .sign (by decide) (.space (hp.legible hends' h'))⟩

/-- Type parameters between angle brackets, if there are any. -/
theorem TypeParam.legible_listPieces {params : List TypeParam}
    (hparams : ∀ p ∈ params, p.Printable) :
    LegibleBehind q (TypeParam.listPieces params) := by
  intro ps hends h
  cases params with
  | nil => exact ⟨hends, h⟩
  | cons p params =>
      obtain ⟨hp, hparams⟩ := List.forall_mem_cons.mp hparams
      have hclose : Piece.Legible q (.sign '>' :: ps) := .sign (by decide) h
      have hends : EndsWord (Piece.print q (.sign '>' :: ps)) := rfl
      obtain ⟨hends', h'⟩ := TypeParam.legible_piecesAfter hparams hends hclose
      rw [TypeParam.listPieces, List.cons_append, List.append_assoc, List.append_assoc]
      exact ⟨rfl, .sign (by decide) (hp.legible hends' h')⟩

/-- What may be inherited from: a dotted name with its arguments. -/
theorem TypeExpr.IsBase.legible {t : TypeExpr} (ht : t.IsBase) : LegibleBefore q t.pieces := by
  intro ps hends h
  obtain ⟨hname, hargs⟩ := ht
  rename_i name args
  rw [pieces_reference, List.append_assoc]
  cases args with
  | nil => exact legible_dotted hname hends h
  | cons t ts =>
      rw [argPieces_cons, List.cons_append, List.append_assoc]
      exact legible_dotted hname rfl (.sign (by decide)
        (legible_commas (fun t ht => (hargs t ht).legible q) rfl (.sign (by decide) h)))

/-- A clause of heritage begins with a blank, which ends the word in front of it. -/
theorem legible_basePieces {w : String} (hw : isIdentifier w = true) {ts : List TypeExpr}
    (hts : ∀ t ∈ ts, t.IsBase) : LegibleBehind q (basePieces w ts) := by
  intro ps hends h
  unfold basePieces
  cases ts with
  | nil => exact ⟨hends, h⟩
  | cons t ts =>
      exact ⟨rfl, .space (.word hw rfl (.space
        (legible_commas (fun t ht => (hts t ht).legible) hends h)))⟩

/-- Each modifier is a word with a blank behind it. -/
theorem Modifiers.legible (m : Modifiers) {ps : List Piece} (h : Piece.Legible q ps) :
    Piece.Legible q (m.pieces ++ ps) := by
  have hword (b : Bool) {w : String} (hw : isIdentifier w = true) {ps : List Piece}
      (h : Piece.Legible q ps) :
      Piece.Legible q ((if b then [.word w, .space] else []) ++ ps) := by
    cases b with
    | false => exact h
    | true => exact .word hw rfl (.space h)
  rw [Modifiers.pieces, List.append_assoc, List.append_assoc, List.append_assoc]
  exact hword _ rfl (hword _ rfl (hword _ rfl (hword _ rfl h)))

/-- The head of a namespace, with a dotted name. -/
theorem legible_scopePieces (m : Modifiers) (isModule : Bool) (name : String)
    {inner : List String} (hinner : ∀ v ∈ inner, isIdentifier v = true) :
    LegibleBefore q (scopePieces m isModule name inner) := by
  intro ps hends h
  obtain ⟨hends', h'⟩ := legible_dots hinner hends h
  rw [scopePieces, List.append_assoc]
  refine m.legible (.word ?_ rfl (.space (.name name hends' h')))
  cases isModule <;> rfl

/-- Declarations on lines of their own, if each of them is legible. -/
theorem legible_draftLines {ds : List Draft}
    (hds : ∀ d ∈ ds, ∀ {ps : List Piece}, Piece.Legible q ps → Piece.Legible q (d.pieces ++ ps))
    {ps : List Piece} (h : Piece.Legible q ps) : Piece.Legible q (draftLines ds ++ ps) := by
  induction ds with
  | nil => exact h
  | cons d ds ih =>
      obtain ⟨hd, hds⟩ := List.forall_mem_cons.mp hds
      rw [draftLines, List.append_assoc]
      exact hd (.lineFeed (ih hds))

/-- Every declaration that can be read back is legible, by induction on the drafts in its blocks. -/
theorem Draft.Printable.legible {d : Draft} (hd : d.Printable) :
    ∀ {ps : List Piece}, Piece.Legible q ps → Piece.Legible q (d.pieces ++ ps) := by
  induction hd with
  | @ofClass m name params parent interfaces members _ hname hparams hparent hinterfaces hmembers =>
      intro ps h
      have hbody : Piece.Legible q (.space :: (bodyPieces members ++ ps)) :=
        .space (legible_bodyPieces (fun m hm => (hmembers m hm).canonical) h)
      have hends : EndsWord (Piece.print q (.space :: (bodyPieces members ++ ps))) := rfl
      obtain ⟨hends₁, h₁⟩ := legible_basePieces (w := "implements") rfl hinterfaces hends hbody
      obtain ⟨hends₂, h₂⟩ := legible_basePieces (w := "extends") rfl
        (fun t ht => hparent t (Option.mem_toList.mp ht)) hends₁ h₁
      obtain ⟨hends₃, h₃⟩ := TypeParam.legible_listPieces hparams hends₂ h₂
      simp only [Draft.pieces, List.append_assoc, List.cons_append]
      refine m.legible ?_
      cases name with
      | none => exact .word rfl hends₃ h₃
      | some n => exact .word rfl rfl (.space (.word (hname n rfl).1 hends₃ h₃))
  | @ofInterface m name params parents members _ _ hname hparams hparents hmembers =>
      intro ps h
      have hbody : Piece.Legible q (.space :: (bodyPieces members ++ ps)) :=
        .space (legible_bodyPieces (fun m hm => (hmembers m hm).canonical) h)
      have hends : EndsWord (Piece.print q (.space :: (bodyPieces members ++ ps))) := rfl
      obtain ⟨hends₁, h₁⟩ := legible_basePieces (w := "extends") rfl hparents hends hbody
      obtain ⟨hends₂, h₂⟩ := TypeParam.legible_listPieces hparams hends₁ h₁
      simp only [Draft.pieces, List.append_assoc, List.cons_append]
      exact m.legible (.word rfl rfl (.space (.word hname hends₂ h₂)))
  | @scope m isModule name inner block _ _ hinner _ ih =>
      intro ps h
      have hblock := legible_draftLines ih (.sign (c := '\x7d') (by decide) h)
      simp only [Draft.pieces, List.append_assoc, List.cons_append, List.nil_append]
      exact legible_scopePieces m isModule name hinner rfl
        (.space (.sign (by decide) (.lineFeed hblock)))
  | @bare m isModule name inner _ _ hinner =>
      intro ps h
      rw [Draft.pieces, List.append_assoc]
      exact legible_scopePieces m isModule name hinner rfl (.sign (by decide) h)
  | @global m block _ _ _ _ ih =>
      intro ps h
      have hblock := legible_draftLines ih (.sign (c := '\x7d') (by decide) h)
      simp only [Draft.pieces, List.append_assoc, List.cons_append, List.nil_append]
      exact m.legible (.word rfl rfl (.space (.sign (by decide) (.lineFeed hblock))))

end Legible

end DeclAtlas
