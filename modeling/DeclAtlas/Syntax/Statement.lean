import DeclAtlas.Syntax.TypeExpr

/-!
# Statements

The statements of a text as far as name resolution needs them: classes and interfaces with
their heritage and members, imports, exports and namespaces.  Every other statement is kept
as `Statement.other` with its span, so that the order of statements is the order of the text.
-/

namespace DeclAtlas

-- ── Declarations ─────────────────────────────────────────────────────────────────

/-- The modifiers in front of a declaration. -/
structure Modifiers where
  exported   : Bool := false
  isDefault  : Bool := false
  ambient    : Bool := false
  isAbstract : Bool := false
deriving DecidableEq, Repr, Inhabited

/-- One entry of the list of types that a declaration inherits from. -/
structure Heritage where
  /-- The entry as it is written, type arguments included. -/
  text : String
  type : TypeExpr
deriving Repr

/-- A class. -/
structure ClassDecl where
  name : Option String
  typeParams : List String
  /-- The class that this one extends. -/
  parent : Option Heritage
  /-- The interfaces that this class implements; they contribute no members. -/
  interfaces : List Heritage
  members : List Member
  modifiers : Modifiers
  span : Span
deriving Repr

/-- An interface. -/
structure InterfaceDecl where
  name : String
  typeParams : List String
  /-- The types that this interface extends. -/
  parents : List Heritage
  members : List Member
  modifiers : Modifiers
  span : Span
deriving Repr

/-- A class or an interface. -/
inductive Declaration
  | ofClass (c : ClassDecl)
  | ofInterface (i : InterfaceDecl)
deriving Repr

namespace Declaration

def name : Declaration → Option String
  | ofClass c => c.name
  | ofInterface i => some i.name

def members : Declaration → List Member
  | ofClass c => c.members
  | ofInterface i => i.members

def span : Declaration → Span
  | ofClass c => c.span
  | ofInterface i => i.span

/-- The label of a declaration's kind in reports. -/
def kind : Declaration → String
  | ofClass _ => "class"
  | ofInterface _ => "interface"

/-- The types whose members are inherited, in the order in which they are searched. -/
def bases : Declaration → List Heritage
  | ofClass c => c.parent.toList
  | ofInterface i => i.parents

/-- The first member with this name. -/
def member? (d : Declaration) (name : String) : Option Member :=
  d.members.find? (·.name == some name)

end Declaration

-- ── Imports and exports ──────────────────────────────────────────────────────────

/-- An element of the braces of an import or an export. -/
structure Specifier where
  /-- The name on the near side: the local name of an import, the public name of an export. -/
  name : String
  /-- The name on the far side, where the element renames. -/
  renamed : Option String
  typeOnly : Bool
deriving DecidableEq, Repr

/-- The name on the far side: what an import asks of its module, or what an export takes from
    where it is found. -/
def Specifier.sourceName (s : Specifier) : String := s.renamed.getD s.name

/-- What an import binds besides a default. -/
inductive Bindings
  /-- The whole module under one name. -/
  | whole (name : String)
  | named (elements : List Specifier)
deriving DecidableEq, Repr

/-- What an import binds. -/
structure ImportClause where
  defaultName : Option String
  bindings : Option Bindings
deriving DecidableEq, Repr

/-- An import of another module. -/
structure Import where
  specifier : String
  /-- Absent where the module is only loaded. -/
  clause : Option ImportClause
  typeOnly : Bool
  span : Span
deriving DecidableEq, Repr

/-- The elements of an import's braces; none for every other form. -/
def Import.elements (i : Import) : List Specifier :=
  match i.clause.bind (·.bindings) with
  | some (.named es) => es
  | _ => []

/-- What an export makes public. -/
inductive ExportClause
  /-- A whole module under one name. -/
  | whole (name : String)
  | named (elements : List Specifier)
deriving DecidableEq, Repr

/-- An export statement. -/
structure Export where
  /-- Absent where every name of the module is passed on. -/
  clause : Option ExportClause
  /-- The module that the names come from, if not this one. -/
  specifier : Option String
  typeOnly : Bool
  span : Span
deriving DecidableEq, Repr

-- ── Statements ───────────────────────────────────────────────────────────────────

mutual

/-- A statement of a module or of a namespace. -/
inductive Statement
  | declaration (d : Declaration)
  | importing (i : Import)
  | exporting (e : Export)
  | scope (n : NamespaceDecl)
  /-- Any other statement. -/
  | other (span : Span)

/-- A namespace or an ambient module. -/
structure NamespaceDecl where
  /-- An identifier, or a module name without its quotes. -/
  name : String
  body : NamespaceBody
  modifiers : Modifiers
  span : Span

/-- What follows the name of a namespace. -/
inductive NamespaceBody
  | block (statements : List Statement)
  /-- A dotted name stands for nested namespaces. -/
  | nested (inner : NamespaceDecl)
  | absent

end

deriving instance Repr for Statement
deriving instance Repr for NamespaceDecl
deriving instance Repr for NamespaceBody

namespace Statement

def span : Statement → Span
  | declaration d => d.span
  | importing i => i.span
  | exporting e => e.span
  | scope n => n.span
  | other s => s

def declaration? : Statement → Option Declaration
  | declaration d => some d
  | _ => none

def import? : Statement → Option Import
  | importing i => some i
  | _ => none

def export? : Statement → Option Export
  | exporting e => some e
  | _ => none

def namespace? : Statement → Option NamespaceDecl
  | scope n => some n
  | _ => none

end Statement

/-- The first declaration with this name among the statements themselves. -/
def findDeclaration? (statements : List Statement) (name : String) : Option Declaration :=
  (statements.filterMap Statement.declaration?).find? (·.name == some name)

/-- The first declaration with this name directly in the block of a namespace. -/
def NamespaceDecl.declaration? (n : NamespaceDecl) (name : String) : Option Declaration :=
  match n.body with
  | .block statements => findDeclaration? statements name
  | _ => none

end DeclAtlas
