import DeclAtlas.Module.Registry
import DeclAtlas.Syntax.TypeExpr

/-!
# Resolving a name

Which class or interface does a name stand for, seen from a module?  A declaration in the
module itself always wins.  Otherwise the name is followed into other modules: a search of
`imports` follows the import that binds the name, a search of `exports` follows the exports
that may pass it on, and every hop into another module goes on with its exports.

The places to look at form a graph (`Registry.places`), which may have cycles.
`SearchGraph.guarded` walks a graph depth first and looks at every node once; its budget here is
the number of places there can be (`Registry.searchBudget`).

Import targets may be remapped on the way, by a function that is a parameter of everything
here; export targets never are.
-/

namespace DeclAtlas

/-- Which statements of a module may lead on to other modules. -/
inductive SearchMode
  | imports
  | exports
deriving DecidableEq, Repr

/-- A place to look at: a name in a unit. -/
structure Place where
  unit : ModuleUnit
  name : String
  mode : SearchMode

/-- What tells two places apart. -/
def Place.id (p : Place) : String × String × SearchMode := (p.unit.key, p.name, p.mode)

/-- A declaration and the unit that it was found in. -/
structure Resolved where
  unit : ModuleUnit
  declaration : Declaration

/-- The declaration at a place itself.  Nothing has an empty name. -/
def Place.hit? (p : Place) : Option Resolved :=
  if p.name = "" then none else (p.unit.declaration? p.name).map (⟨p.unit, ·⟩)

/-- A name up to its first `<`: without type arguments. -/
def withoutTypeArgs (name : String) : String :=
  String.ofList (name.toList.takeWhile (· ≠ '<'))

/-- The first import that binds a local name, with the element that does. -/
def SourceUnit.importOf? (s : SourceUnit) (name : String) : Option (Import × Specifier) :=
  s.imports.findSome? fun i => (i.elements.find? (·.name == name)).map (i, ·)

/-- The name under which an export passes a public name on, if it does. -/
def Export.localName? (e : Export) (name : String) : Option String :=
  match e.clause with
  | none => some name
  | some (.named elements) => (elements.find? (·.name == name)).map Specifier.sourceName
  | some (.whole _) => none

-- ── A search that looks at nothing twice ─────────────────────────────────────────

/-- The first success among several attempts, each of which may change the state that the next
    one sees. -/
def firstSuccess (attempt : α → σ → Option β × σ) : List α → σ → Option β × σ
  | [], s => (none, s)
  | x :: xs, s =>
    match attempt x s with
    | (some b, s') => (some b, s')
    | (none, s') => firstSuccess attempt xs s'

/-- What a search goes over: nodes that are told apart by a mark, some of them dead and some of
    them successes, and the nodes that each leads to. -/
structure SearchGraph (α κ β : Type) where
  mark : α → κ
  dead : α → Bool
  success? : α → Option β
  next : α → List α

/-- Looks for a success from a node on, depth first, and skips the nodes whose marks are in
    `seen`.  Gives the success and the marks seen by then.  It gives up when its budget is
    spent. -/
def SearchGraph.guarded [DecidableEq κ] (g : SearchGraph α κ β) :
    Nat → α → List κ → Option β × List κ
  | 0, _, seen => (none, seen)
  | n + 1, a, seen =>
    if g.dead a ∨ g.mark a ∈ seen then (none, seen)
    else
      match g.success? a with
      | some b => (some b, g.mark a :: seen)
      | none => firstSuccess (g.guarded n) (g.next a) (g.mark a :: seen)

namespace Registry

variable (r : Registry) (remap : String → String)

-- ── The graph ────────────────────────────────────────────────────────────────────

/-- Where the import of a name leads to. -/
def importHop? (s : SourceUnit) (name : String) : Option Place :=
  (s.importOf? (withoutTypeArgs name)).bind fun (i, element) =>
    (r.lookup (remap (ModulePath.target s.path i.specifier))).map
      fun next => ⟨next, element.sourceName, .exports⟩

/-- Where an export of a name leads to: into the module that the export names, or to the
    imports of its own module. -/
def exportHop? (s : SourceUnit) (name : String) (e : Export) : Option Place :=
  (e.localName? name).bind fun inner =>
    match e.specifier with
    | some specifier =>
      (r.lookup (ModulePath.target s.path specifier)).map (⟨·, inner, .exports⟩)
    | none => if e.clause.isSome then some ⟨.source s, inner, .imports⟩ else none

/-- The places that a place without a declaration leads to, in the order in which they are
    tried. -/
def hops (p : Place) : List Place :=
  match p.unit with
  | .ambient _ => []
  | .source s =>
    if p.name = "" then []
    else
      match p.mode with
      | .imports => (r.importHop? remap s p.name).toList
      | .exports => s.exports.filterMap (r.exportHop? s p.name)

-- ── The search ───────────────────────────────────────────────────────────────────

/-- The graph of places.  A place with an empty name is dead. -/
def places : SearchGraph Place (String × String × SearchMode) Resolved where
  mark := Place.id
  dead := fun p => p.name == ""
  success? := Place.hit?
  next := r.hops remap

/-- The far names of all elements of imports and exports. -/
def elementNames : List String :=
  r.units.flatMap fun
    | .ambient _ => []
    | .source s =>
      s.imports.flatMap (fun i => i.elements.map Specifier.sourceName) ++
        s.exports.flatMap fun e =>
          match e.clause with
          | some (.named elements) => elements.map Specifier.sourceName
          | _ => []

/-- A budget for a search: one more than the number of places with a registered key and either
    the name at the start or one that an import or export element brings in. -/
def searchBudget : Nat := 2 * r.units.length * (r.elementNames.length + 1) + 1

/-- The declaration that a name stands for, seen from a unit. -/
def resolve (u : ModuleUnit) (name : String) (mode : SearchMode) : Option Resolved :=
  ((r.places remap).guarded r.searchBudget ⟨u, name, mode⟩ []).1

/-- The declaration that a name stands for, seen from the unit that a module path stands
    for. -/
def resolveIn (module name : String) : Option Resolved :=
  (r.lookup module).bind fun u => r.resolve remap u name .imports

end Registry

/-!
## Members and their inheritance

The members that a declaration has of its own and through the types it inherits from.  Bases
are resolved from the unit of the declaration that names them, and followed depth first in the
order in which they are written; a declaration is looked at once, so that inheritance may be
cyclic.

`Registry.findMember` looks for one name, `Registry.members` lists all of them, and
`Registry.resolvePath` follows a dotted path from member to member.
-/

/-- The name that a heritage entry resolves under: that of a reference, and the written text of
    anything else. -/
def Heritage.name (h : Heritage) : String :=
  match h.type with
  | .reference name _ => name
  | _ => h.text

/-- What tells two resolved declarations apart: a name stands for one declaration of a unit. -/
def Resolved.id (d : Resolved) : String × Option String := (d.unit.key, d.declaration.name)

/-- A member and the declaration that declares it. -/
structure FoundMember where
  member : Member
  owner : Resolved

/-- The member that a name stands for in a declaration itself: the first one of this name with
    a declared type, or else the first one of this name. -/
def Declaration.chosenMember? (d : Declaration) (name : String) : Option Member :=
  let named := d.members.filter (·.name == some name)
  named.find? (·.declaredType?.isSome) <|> named.head?

/-- What has been collected while a heritage graph is walked. -/
structure Collection where
  /-- Names of the members found. -/
  names : List String
  /-- Declarations that have been looked at. -/
  seen : List (String × Option String)
  found : List FoundMember

/-- A member is taken unless its name is taken; one without a name only from the declaration
    that was asked for (`isRoot`). -/
def Collection.takes (w : Collection) (isRoot : Bool) (m : Member) : Bool :=
  match m.name with
  | some name => !w.names.contains name
  | none => isRoot

/-- Adds the members that a declaration contributes. -/
def Collection.add (w : Collection) (isRoot : Bool) (d : Resolved) : Collection :=
  let own := d.declaration.members.filter (w.takes isRoot)
  { names := w.names ++ own.filterMap (·.name)
    seen := d.id :: w.seen
    found := w.found ++ own.map (⟨·, d⟩) }

namespace Registry

variable (r : Registry) (remap : String → String)

/-- The declarations that a declaration inherits from.  Entries that cannot be resolved are left
    out. -/
def bases (d : Resolved) : List Resolved :=
  d.declaration.bases.filterMap fun h => r.resolve remap d.unit h.name .imports

/-- A budget for walking a heritage graph: one more than the number of declarations. -/
def heritageBudget : Nat := (r.units.flatMap (·.declarations)).length + 1

/-- The graph of heritage, in which declarations with a member of some name are the
    successes. -/
def heritage (name : String) : SearchGraph Resolved (String × Option String) FoundMember where
  mark := Resolved.id
  dead := fun _ => false
  success? := fun d => (d.declaration.chosenMember? name).map (⟨·, d⟩)
  next := r.bases remap

/-- The member that a name stands for in a declaration or in what it inherits from. -/
def findMember (d : Resolved) (name : String) : Option FoundMember :=
  ((r.heritage remap name).guarded r.heritageBudget d []).1

/-- Collects members from a declaration on. -/
def collect : Nat → Bool → Resolved → Collection → Collection
  | 0, _, _, w => w
  | n + 1, isRoot, d, w =>
    if d.id ∈ w.seen then w
    else (r.bases remap d).foldl (fun w b => collect n false b w) (w.add isRoot d)

/-- All members of a declaration: its own, then those it inherits.  A name hides all later
    members of this name; members without a name are not inherited. -/
def members (d : Resolved) : List FoundMember :=
  (r.collect remap r.heritageBudget true d ⟨[], [], []⟩).found

/-- The type name at the end of a member path from a declaration on.  The empty path ends at the
    declaration itself. -/
def follow (d : Resolved) : List String → Option String
  | [] => d.declaration.name
  | [last] => (r.findMember remap d last).bind (·.member.typeName?)
  | segment :: rest =>
    (r.findMember remap d segment).bind fun found =>
      found.member.typeName?.bind fun name =>
        (r.resolve remap found.owner.unit name .imports).bind fun next => follow next rest

/-- The segments of a dotted path; empty ones do not count. -/
def pathSegments (path : String) : List String :=
  ((Text.pieces (· == '.') path.toList).filter (· ≠ [])).map String.ofList

/-- The type name at the end of a dotted path that starts at a type, seen from a unit. -/
def resolvePath (u : ModuleUnit) (typeName path : String) : Option String :=
  (r.resolve remap u typeName .imports).bind fun d => r.follow remap d (pathSegments path)

variable {r : Registry} {remap : String → String} {d : Resolved} {segment : String}
  {rest : List String}

@[simp] theorem follow_last :
    r.follow remap d [segment] = (r.findMember remap d segment).bind (·.member.typeName?) := rfl

/-- Every segment but the last leads on to what the type of its member stands for. -/
theorem follow_cons (h : rest ≠ []) :
    r.follow remap d (segment :: rest) =
      (r.findMember remap d segment).bind fun found =>
        found.member.typeName?.bind fun name =>
          (r.resolve remap found.owner.unit name .imports).bind (r.follow remap · rest) := by
  cases rest with
  | nil => exact absurd rfl h
  | cons next rest => rfl

end Registry

end DeclAtlas
