import DeclAtlas.Module.Load

/-!
# Reports

What is told of modules, declarations and paths, apart from how it is written.  Each report has
a form as a JSON document, which also lists the problems met while files were read, and one as
lines for a person at a terminal.
-/

namespace DeclAtlas

/-!
## JSON documents

The values that reports are written as, and their text: two blanks of indentation for every
level, one entry a line, and `[]` or an empty pair of braces where there is none.  Fields keep
their order.  In strings, quotes, backslashes and control characters are escaped, and nothing
else.
-/

/-- A JSON value. -/
inductive Document
  | null
  | bool (b : Bool)
  | nat (n : Nat)
  | text (s : String)
  | list (items : List Document)
  | record (fields : List (String × Document))
deriving Repr, Inhabited

namespace Document

/-- A text, or null if there is none. -/
def ofText? : Option String → Document
  | some s => text s
  | none => null

/-- A list of texts. -/
def texts (ss : List String) : Document := list (ss.map text)

/-- A digit of base 16. -/
def hexDigit (n : Nat) : Char := Nat.digitChar n

/-- A character of a string. -/
def escapeChar (c : Char) : List Char :=
  match c with
  | '"' => ['\\', '"']
  | '\\' => ['\\', '\\']
  | '\n' => ['\\', 'n']
  | '\r' => ['\\', 'r']
  | '\t' => ['\\', 't']
  | '\x08' => ['\\', 'b']
  | '\x0c' => ['\\', 'f']
  | c =>
    if c.toNat < 0x20 then
      ['\\', 'u', '0', '0', hexDigit (c.toNat / 16), hexDigit (c.toNat % 16)]
    else [c]

/-- A string between quotes. -/
def quote (s : String) : String := "\"" ++ String.ofList (s.toList.flatMap escapeChar) ++ "\""

/-- Entries between brackets, each on a line of its own at the given depth. -/
def block (opening closing : String) (depth : Nat) (entries : List String) : String :=
  let indent (n : Nat) := String.ofList (List.replicate (2 * n) ' ')
  match entries with
  | [] => opening ++ closing
  | _ =>
    opening ++ "\n" ++ ",\n".intercalate (entries.map (indent (depth + 1) ++ ·)) ++ "\n" ++
      indent depth ++ closing

mutual

/-- The text of a value whose first line is already indented to a depth. -/
def render (depth : Nat) : Document → String
  | null => "null"
  | bool b => if b then "true" else "false"
  | nat n => Nat.repr n
  | text s => quote s
  | list items => block "[" "]" depth (renderItems (depth + 1) items)
  | record fields => block "\x7b" "\x7d" depth (renderFields (depth + 1) fields)

/-- The texts of the items of a list. -/
def renderItems (depth : Nat) : List Document → List String
  | [] => []
  | d :: ds => render depth d :: renderItems depth ds

/-- The texts of the fields of a record. -/
def renderFields (depth : Nat) : List (String × Document) → List String
  | [] => []
  | (key, d) :: rest => (quote key ++ ": " ++ render depth d) :: renderFields depth rest

end

/-- The text of a document. -/
def pretty (d : Document) : String := d.render 0

end Document

end DeclAtlas

namespace DeclAtlas.Report

/-! ## Entries -/

/-- A registered module. -/
structure ModuleEntry where
  key : String
  kind : String
  /-- The number of classes and interfaces directly in the module. -/
  declarations : Nat
deriving DecidableEq, Repr

/-- The modules of a registry, in their order. -/
def moduleEntries (r : Registry) : List ModuleEntry :=
  r.units.map fun u => ⟨u.key, u.kind, u.declarations.length⟩

/-- Where a declaration stands. -/
structure Location where
  module : String
  line : Nat
  column : Nat
deriving DecidableEq, Repr

/-- A member and the name that its declared type resolves under. -/
structure MemberEntry where
  name : Option String
  kind : String
  typeName : Option String
  isArray : Bool
  optional : Bool
  isStatic : Bool
  /-- The declaration that the member is inherited from. -/
  inheritedFrom : Option String
deriving DecidableEq, Repr

/-- A class or an interface. -/
structure DeclarationEntry where
  name : String
  kind : String
  location : Location
  bases : List String
  members : List MemberEntry
deriving DecidableEq, Repr

/-- The end of a member path. -/
structure QueryEntry where
  typeName : String
  path : String
  module : String
  result : Option String
deriving DecidableEq, Repr

-- ── Making reports ───────────────────────────────────────────────────────────────

/-- The entry of a member. -/
def memberEntry (m : Member) (inheritedFrom : Option String) : MemberEntry where
  name := m.name
  kind := m.kind.label
  typeName := m.typeName?
  isArray := m.declaredType?.any TypeExpr.isArray
  optional := m.optional
  isStatic := m.isStatic
  inheritedFrom := inheritedFrom

/-- The entry of a declaration with the given members. -/
def declarationEntry (d : Resolved) (members : List MemberEntry) : DeclarationEntry where
  name := d.declaration.name.getD ""
  kind := d.declaration.kind
  location :=
    ⟨d.unit.key, d.declaration.span.start.line, d.declaration.span.start.column⟩
  bases := d.declaration.bases.map (·.text)
  members := members

/-- The entry of a declaration with its own members. -/
def ownEntry (d : Resolved) : DeclarationEntry :=
  declarationEntry d (d.declaration.members.map (memberEntry · none))

/-- The entry of a declaration with all members that were found for it.  Those of other
    declarations are marked as inherited. -/
def inheritedEntry (d : Resolved) (found : List FoundMember) : DeclarationEntry :=
  declarationEntry d (found.map fun f =>
    memberEntry f.member (if f.owner.id = d.id then none else f.owner.declaration.name))

-- ── Documents ────────────────────────────────────────────────────────────────────

open Document

def ModuleEntry.document (e : ModuleEntry) : Document :=
  record [("key", text e.key), ("kind", text e.kind), ("declarations", nat e.declarations)]

def Location.document (l : Location) : Document :=
  record [("module", text l.module), ("line", nat l.line), ("column", nat l.column)]

/-- The origin of a member is only told of an inherited one. -/
def MemberEntry.document (m : MemberEntry) : Document :=
  record ([("name", ofText? m.name), ("kind", text m.kind), ("type", ofText? m.typeName),
    ("array", bool m.isArray), ("optional", bool m.optional), ("static", bool m.isStatic)] ++
    (m.inheritedFrom.map fun n => ("inheritedFrom", text n)).toList)

def DeclarationEntry.document (d : DeclarationEntry) : Document :=
  record [("name", text d.name), ("kind", text d.kind), ("location", d.location.document),
    ("bases", texts d.bases), ("members", list (d.members.map MemberEntry.document))]

def QueryEntry.document (q : QueryEntry) : Document :=
  record [("type", text q.typeName), ("path", text q.path), ("module", text q.module),
    ("result", ofText? q.result)]

def tallyDocument (t : Tally) : Document :=
  record [("files", nat t.files), ("modules", nat t.modules), ("ambient", nat t.ambient)]

/-- The problems met, as a field of a document. -/
def problemsField (problems : List Problem) : String × Document :=
  ("errors", texts (problems.map Problem.message))

def modulesDocument (entries : List ModuleEntry) (tally : Tally) (problems : List Problem) :
    Document :=
  record [("modules", list (entries.map ModuleEntry.document)), ("summary", tallyDocument tally),
    problemsField problems]

/-- The document of a declaration; null stands for one that was not found. -/
def declarationDocument (entry : Option DeclarationEntry) (problems : List Problem) : Document :=
  record [("declaration", (entry.map DeclarationEntry.document).getD null),
    problemsField problems]

def queryDocument (entry : QueryEntry) (problems : List Problem) : Document :=
  record [("query", entry.document), problemsField problems]

/-!
## Colours

Text with the marks that make a terminal show it in bold or in a colour.  Without colours, a
text stays as it is.
-/

/-- A colour of a terminal. -/
inductive Color
  | red
  | green
  | yellow
  | blue
  | cyan
  | gray
deriving DecidableEq, Repr

/-- The number that selects a colour. -/
def Color.code : Color → String
  | red => "31"
  | green => "32"
  | yellow => "33"
  | blue => "34"
  | cyan => "36"
  | gray => "90"

/-- Selects a way to show what follows. -/
def mark (code : String) : String := "\x1b[" ++ code ++ "m"

/-- A text in a colour, even if it is empty. -/
def paint (colors : Bool) (c : Color) (s : String) : String :=
  if colors then mark c.code ++ s ++ mark "39" else s

/-- A text in bold. -/
def bold (colors : Bool) (s : String) : String :=
  if colors then mark "1" ++ s ++ mark "0" else s

/-!
## Reports for readers

The lines that reports are written as for a person at a terminal.
-/

/-- The line of a module. -/
def ModuleEntry.line (colors : Bool) (e : ModuleEntry) : String :=
  bold colors e.key ++ " (" ++ e.kind ++ ", " ++ Nat.repr e.declarations ++ " declarations)"

/-- The line that says how much was read. -/
def tallyLine (colors : Bool) (t : Tally) : String :=
  bold colors ("— Summary — files=" ++ Nat.repr t.files ++ " modules=" ++ Nat.repr t.modules ++
    " ambient=" ++ Nat.repr t.ambient)

/-- The modules of a registry and how much was read for it. -/
def moduleLines (colors : Bool) (entries : List ModuleEntry) (tally : Tally) : List String :=
  entries.map (·.line colors) ++ [tallyLine colors tally]

/-- The line of a member: kind, name, type and, for an inherited one, where it is from. -/
def MemberEntry.line (colors : Bool) (m : MemberEntry) : String :=
  let kind := if m.isStatic then "static " ++ m.kind else m.kind
  let name := m.name.getD "<unnamed>" ++ if m.optional then "?" else ""
  let type := match m.typeName with
    | some t => if m.isArray then t ++ "[]" else t
    | none => "?"
  let origin := match m.inheritedFrom with
    | some o => " (from " ++ o ++ ")"
    | none => ""
  paint colors .gray kind ++ " " ++ bold colors name ++ ": " ++ paint colors .green type ++
    paint colors .gray origin

/-- Where a declaration stands. -/
def Location.text (l : Location) : String :=
  l.module ++ ":" ++ Nat.repr l.line ++ ":" ++ Nat.repr l.column

/-- A declaration: its head, what it extends and its members. -/
def DeclarationEntry.lines (colors : Bool) (d : DeclarationEntry) : List String :=
  let head := bold colors (d.kind ++ " " ++ d.name) ++ " " ++ paint colors .gray "at" ++ " " ++
    paint colors .cyan d.location.text
  let bases := if d.bases.isEmpty then [] else ["  extends " ++ ", ".intercalate d.bases]
  head :: bases ++ d.members.map fun m => "  " ++ m.line colors

/-- The type at the end of a member path, or that there is none. -/
def QueryEntry.line (colors : Bool) (q : QueryEntry) : String :=
  match q.result with
  | some t => t
  | none =>
    paint colors .yellow (q.typeName ++ "." ++ q.path ++
      " does not resolve to a known type (from " ++ q.module ++ ")")

end DeclAtlas.Report
