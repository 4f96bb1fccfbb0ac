import DeclAtlas.Proofs.Inheritance

/-!
# Paths through members

A dotted path goes from a declaration to a member of it, to what the type of this member stands
for, seen from the module that declares the member, to a member of that, and so on.  The search
treats the last segment apart; `Registry.FollowsTo` is the same walk as a relation, which ends at
a member and not at the name of its type.

* **`Registry.resolvePath_append`** — following one path behind another is following the second
  from where the first has ended: from the module that declares the member found, and from the
  name of its type.  Where the first has no end, neither have both.
-/

namespace DeclAtlas

namespace Registry

/-- Following the segments of a path from a declaration on ends at a member.  On every segment but
    the last, the type of the member found has a name, and this name, seen from the unit that
    declares the member, stands for the declaration where the next segment is looked for. -/
inductive FollowsTo (r : Registry) (remap : String → String) :
    Resolved → List String → FoundMember → Prop
  | last {d segment f} : r.findMember remap d segment = some f → FollowsTo r remap d [segment] f
  | hop {d segment f name next rest g} : r.findMember remap d segment = some f →
      f.member.typeName? = some name →
      r.resolve remap f.owner.unit name .imports = some next →
      FollowsTo r remap next rest g → FollowsTo r remap d (segment :: rest) g

variable {r : Registry} {remap : String → String} {d : Resolved} {f : FoundMember}
  {name : String} {p q : List String}

-- ── Where a path ends ────────────────────────────────────────────────────────────

theorem FollowsTo.ne_nil (h : r.FollowsTo remap d p f) : p ≠ [] := by
  cases h with
  | last => exact List.cons_ne_nil _ _
  | hop => exact List.cons_ne_nil _ _

/-- A path that ends at a member gives the name of its type. -/
theorem FollowsTo.follow_eq (h : r.FollowsTo remap d p f) :
    r.follow remap d p = f.member.typeName? := by
  induction h with
  | last hf => rw [follow_last, hf, Option.bind_some]
  | hop hf hname hnext hrest ih =>
      rw [follow_cons hrest.ne_nil, hf, Option.bind_some, hname, Option.bind_some, hnext,
        Option.bind_some, ih]

/-- A path that gives a name ends at a member. -/
theorem exists_followsTo (hp : p ≠ []) (h : r.follow remap d p = some name) :
    ∃ f, r.FollowsTo remap d p f := by
  induction p generalizing d with
  | nil => exact absurd rfl hp
  | cons segment rest ih =>
      by_cases hrest : rest = []
      · subst hrest
        obtain ⟨f, hf, -⟩ := Option.bind_eq_some_iff.mp h
        exact ⟨f, .last hf⟩
      · rw [follow_cons hrest] at h
        obtain ⟨f, hf, h⟩ := Option.bind_eq_some_iff.mp h
        obtain ⟨typeName, htype, h⟩ := Option.bind_eq_some_iff.mp h
        obtain ⟨next, hnext, h⟩ := Option.bind_eq_some_iff.mp h
        obtain ⟨g, hg⟩ := ih hrest h
        exact ⟨g, .hop hf htype hnext hg⟩

-- ── One path behind another ──────────────────────────────────────────────────────

/-- Behind a path that ends at a member, a walk goes on at what the type of this member stands for,
    seen from the unit that declares it. -/
theorem FollowsTo.follow_append (h : r.FollowsTo remap d p f)
    (hname : f.member.typeName? = some name) (hq : q ≠ []) :
    r.follow remap d (p ++ q) =
      (r.resolve remap f.owner.unit name .imports).bind (r.follow remap · q) := by
  induction h with
  | last hf =>
      rw [List.singleton_append, follow_cons hq, hf, Option.bind_some, hname, Option.bind_some]
  | hop hf htype hnext hrest ih =>
      rw [List.cons_append, follow_cons (List.append_ne_nil_of_right_ne_nil _ hq), hf,
        Option.bind_some, htype, Option.bind_some, hnext, Option.bind_some, ih hname]

/-- Behind a path without an end nothing is found. -/
theorem follow_append_of_none (hp : p ≠ []) (h : r.follow remap d p = none) (hq : q ≠ []) :
    r.follow remap d (p ++ q) = none := by
  induction p generalizing d with
  | nil => exact absurd rfl hp
  | cons segment rest ih =>
      rw [List.cons_append, follow_cons (List.append_ne_nil_of_right_ne_nil _ hq)]
      refine Option.bind_eq_none_iff.mpr fun f hf => ?_
      refine Option.bind_eq_none_iff.mpr fun name hname => ?_
      by_cases hrest : rest = []
      · rw [hrest, follow_last, hf, Option.bind_some, hname] at h
        exact nomatch h
      · rw [follow_cons hrest, hf, Option.bind_some, hname, Option.bind_some] at h
        refine Option.bind_eq_none_iff.mpr fun next hnext => ?_
        rw [hnext, Option.bind_some] at h
        exact ih hrest h

-- ── Paths as they are written ────────────────────────────────────────────────────

/-- The segments of a path as it is written: what stands between its points and is not empty. -/
def writtenPath (path : String) : List String :=
  ((path.toList.splitOn '.').filter (· ≠ [])).map String.ofList

theorem pathSegments_eq (path : String) : pathSegments path = writtenPath path := by
  rw [pathSegments, writtenPath, List.splitOn, Text.pieces_eq_splitOnP]

/-- A point between two paths puts their segments together. -/
theorem pathSegments_append (p q : String) :
    pathSegments (p ++ "." ++ q) = pathSegments p ++ pathSegments q := by
  have hchars : (p ++ "." ++ q).toList = p.toList ++ '.' :: q.toList := by simp
  rw [pathSegments, hchars, Text.pieces_append_sep rfl, List.filter_append, List.map_append]
  rfl

/-- **Paths compose.**  For paths `p` and `q` that have a segment each, seen from any unit:

    * `p` gives a name exactly if following it from what the type stands for ends at a member whose
      type has this name;
    * then `p` and `q` with a point in between give what `q` gives from this name, seen from the
      unit that declares the member;
    * if `p` gives nothing, `p` and `q` together give nothing.

    What a path gives depends on nothing but its segments that are not empty. -/
theorem resolvePath_append (r : Registry) (remap : String → String) (u : ModuleUnit)
    (typeName p : String) :
    (writtenPath p ≠ [] →
      (∀ name, r.resolvePath remap u typeName p = some name ↔
        ∃ d f, r.resolve remap u typeName .imports = some d ∧
          r.FollowsTo remap d (writtenPath p) f ∧ f.member.typeName? = some name) ∧
      ∀ q, writtenPath q ≠ [] →
        (∀ d f name, r.resolve remap u typeName .imports = some d →
          r.FollowsTo remap d (writtenPath p) f → f.member.typeName? = some name →
          r.resolvePath remap u typeName (p ++ "." ++ q) =
            r.resolvePath remap f.owner.unit name q) ∧
        (r.resolvePath remap u typeName p = none →
          r.resolvePath remap u typeName (p ++ "." ++ q) = none)) ∧
    ∀ p', writtenPath p' = writtenPath p →
      r.resolvePath remap u typeName p' = r.resolvePath remap u typeName p := by
  constructor
  · intro hp
    refine ⟨?_, ?_⟩
    · intro name
      rw [resolvePath, pathSegments_eq, Option.bind_eq_some_iff]
      constructor
      · rintro ⟨d, hd, hname⟩
        obtain ⟨f, hf⟩ := exists_followsTo hp hname
        exact ⟨d, f, hd, hf, hf.follow_eq.symm.trans hname⟩
      · rintro ⟨d, f, hd, hf, hname⟩
        exact ⟨d, hd, hf.follow_eq.trans hname⟩
    · intro q hq
      refine ⟨?_, ?_⟩
      · intro d f name hd hf hname
        rw [resolvePath, resolvePath, hd, Option.bind_some, pathSegments_append, pathSegments_eq,
          pathSegments_eq, hf.follow_append hname hq]
      · intro hnone
        rw [resolvePath, pathSegments_append, pathSegments_eq, pathSegments_eq]
        refine Option.bind_eq_none_iff.mpr fun d hd => ?_
        rw [resolvePath, hd, Option.bind_some, pathSegments_eq] at hnone
        exact follow_append_of_none hp hnone hq
  · intro p' h
    rw [resolvePath, resolvePath, pathSegments_eq, pathSegments_eq, h]

/-- A class with one property. -/
def classWith (name : String) (parent : Option String) (property : String) (type : TypeExpr) :
    Declaration :=
  .ofClass ⟨some name, [], parent.map fun p => ⟨p, .reference p []⟩, [],
    [⟨.property, some property, some type, false, false, default⟩], {}, default⟩

/-- A module whose class has a property of an imported type, under another name. -/
def pageModule : SourceUnit :=
  ⟨"page", [importOne "./panel" "View" (some "Panel"),
    .declaration (classWith "Page" none "view" (.reference "View" []))]⟩

/-- A module whose class inherits from an imported one. -/
def panelModule : SourceUnit :=
  ⟨"panel", [importOne "./list" "List" none,
    .declaration (classWith "Panel" (some "List") "title" (.keyword .string))]⟩

/-- A module whose class has an array of a class of the same module. -/
def listModule : SourceUnit :=
  ⟨"list", [.declaration (classWith "List" none "items" (.array (.reference "Item" []))),
    .declaration (classWith "Item" none "text" (.keyword .string))]⟩

/-- Three modules, each of which leads on to the next. -/
def pages : Registry := afterCalls [.unit pageModule, .unit panelModule, .unit listModule]

/-- A path leads through a renamed import and an inherited member to an array, and the path behind
    it goes on in the module that declares this member. -/
theorem pages_path_goes_on :
    pages.resolvePath id (.source pageModule) "Page" ("view..items" ++ "." ++ "text") =
        pages.resolvePath id (.source listModule) "Item" "text" ∧
      pages.resolvePath id (.source pageModule) "Page" ("view..title.items" ++ "." ++ "text") =
        none ∧
      pages.resolvePath id (.source listModule) "Item" "text" = some "string" := by
  have hitems : pages.FollowsTo id
      ⟨.source pageModule, classWith "Page" none "view" (.reference "View" [])⟩
      (writtenPath "view..items")
      ⟨⟨.property, some "items", some (.array (.reference "Item" [])), false, false, default⟩,
        ⟨.source listModule, classWith "List" none "items" (.array (.reference "Item" []))⟩⟩ :=
    .hop rfl rfl rfl (.last rfl)
  have hgoes := (resolvePath_append pages id (.source pageModule) "Page" "view..items").1
    (by decide)
  have hstops := (resolvePath_append pages id (.source pageModule) "Page" "view..title.items").1
    (by decide)
  exact ⟨(hgoes.2 "text" (by decide)).1 _ _ "Item" rfl hitems rfl,
    (hstops.2 "text" (by decide)).2 (by decide), by decide⟩

end Registry

end DeclAtlas
