import DeclAtlas.Token.Lexeme

/-!
# Type annotations and members

What the library keeps of a type annotation, and of a member of a class, an interface or a
type literal.  Keywords, references and arrays are kept exactly, because questions about
declared types are answered from them; function types, conditional types, mapped types and
other forms are only told apart.  The two types are mutually recursive: a type literal holds
members, and a member has a declared type.
-/

namespace DeclAtlas

/-- Types that are named by a keyword. -/
inductive Keyword
  | string
  | number
  | boolean
  | any
  | unknown
  | void
  | never
  | object
  | undefined
  | null
  | symbol
  | bigint
  | this
deriving DecidableEq, Repr, Inhabited

namespace Keyword

/-- Every keyword once. -/
def all : List Keyword :=
  [string, number, boolean, any, unknown, void, never, object, undefined, null, symbol,
    bigint, this]

/-- The word that a keyword is written as. -/
def word : Keyword → String
  | string => "string"
  | number => "number"
  | boolean => "boolean"
  | any => "any"
  | unknown => "unknown"
  | void => "void"
  | never => "never"
  | object => "object"
  | undefined => "undefined"
  | null => "null"
  | symbol => "symbol"
  | bigint => "bigint"
  | this => "this"

/-- The keyword that a word is, if it is one. -/
def ofWord? (w : String) : Option Keyword := all.find? (·.word == w)

/-- A keyword's word reads back as that keyword. -/
@[simp] theorem ofWord?_word (k : Keyword) : ofWord? k.word = some k := by
  cases k <;> decide

end Keyword

/-- What kind of member a class, interface or type literal declares. -/
inductive MemberKind
  | property
  | method
  | getter
  | setter
  | constructor
  | indexer
  | staticBlock
  | propertySignature
  | methodSignature
  | callSignature
  | constructSignature
deriving DecidableEq, Repr, Inhabited

/-- The label of a member kind in reports. -/
def MemberKind.label : MemberKind → String
  | property => "property"
  | method => "method"
  | getter => "get"
  | setter => "set"
  | constructor => "constructor"
  | indexer => "index"
  | staticBlock => "static-block"
  | propertySignature => "property-signature"
  | methodSignature => "method-signature"
  | callSignature => "call-signature"
  | constructSignature => "construct-signature"

mutual

/-- A type annotation. -/
inductive TypeExpr
  | keyword (k : Keyword)
  /-- A possibly dotted name with its type arguments. -/
  | reference (name : String) (args : List TypeExpr)
  /-- An element type followed by an empty pair of brackets. -/
  | array (element : TypeExpr)
  | tuple (elements : List TypeExpr)
  | union (parts : List TypeExpr)
  | intersection (parts : List TypeExpr)
  /-- A string, number, boolean or template used as a type; a string without its quotes, the
      others as written. -/
  | literal (text : String)
  /-- A function or constructor type. -/
  | function
  /-- A type literal between braces. -/
  | members (ms : List Member)
  | paren (inner : TypeExpr)
  /-- The type of the value with this dotted name. -/
  | query (name : String)
  /-- Any form that is read over and not kept. -/
  | other

/-- A member of a class, an interface or a type literal. -/
structure Member where
  kind : MemberKind
  /-- Absent for computed names, unnamed signatures and static blocks. -/
  name : Option String
  type : Option TypeExpr
  isStatic : Bool
  optional : Bool
  span : Span

end

deriving instance Repr for TypeExpr
deriving instance Repr for Member

instance : Inhabited TypeExpr := ⟨.other⟩

/-!
## Declared types of members

Which member has a declared type that a question can be answered from, and the name that such
a type resolves under.  Everything else has no known type; that is never an error.
-/

namespace Member

/-- The declared type of a class member: of a property, of a getter, or of a method's
    result. -/
def classType? (m : Member) : Option TypeExpr :=
  match m.kind with
  | .property | .method | .getter => m.type
  | _ => none

/-- The declared type of a member of an interface or a type literal: of a property, or of a
    method's result. -/
def signatureType? (m : Member) : Option TypeExpr :=
  match m.kind with
  | .propertySignature | .methodSignature => m.type
  | _ => none

/-- The declared type of a member, wherever it stands. -/
def declaredType? (m : Member) : Option TypeExpr := m.classType? <|> m.signatureType?

end Member

namespace TypeExpr

/-- The name that a type resolves under: the element's for an array in either spelling, the
    dotted name of a reference, and the word itself for strings, numbers and booleans. -/
def name? : TypeExpr → Option String
  | array element => element.name?
  | reference name [] => if name = "Array" then none else some name
  | reference name (arg :: _) => if name = "Array" then arg.name? else some name
  | keyword .string => some "string"
  | keyword .number => some "number"
  | keyword .boolean => some "boolean"
  | _ => none

/-- The type is an array, in either spelling. -/
def isArray : TypeExpr → Bool
  | array _ => true
  | reference name _ => name == "Array"
  | _ => false

end TypeExpr

/-- The name that the declared type of a member resolves under. -/
def Member.typeName? (m : Member) : Option String := m.declaredType?.bind TypeExpr.name?

end DeclAtlas
