import DeclAtlas.Proofs.GuardedSearch
import DeclAtlas.Proofs.Ingestion
import Mathlib.Data.Finset.Prod

/-!
# Resolving a name finds what can be reached

`Registry.Hop` says, statement by statement, where a name may be followed to from a place that
does not declare it.  In a registry that calls can build:

* **`Registry.resolve_sound_complete`** — `Registry.resolve` gives a declaration that hops lead
  to, and it gives one whenever hops lead to any, cycles or not;
* **`Registry.resolve_of_plain`** — where the search that remembers nothing comes to an end,
  `Registry.resolve` gives the same.

Both are facts about `SearchGraph.guarded`; what is to be shown here is that hops stay within a
finite set of places (`Registry.arena_places`) and that the budget covers it.
-/

namespace DeclAtlas

-- ── The search graph, statement by statement ─────────────────────────────────────

/-- The name of a place is not empty, and its unit declares it. -/
def Place.IsHit (p : Place) : Prop := p.name ≠ "" ∧ ∃ d, p.unit.declaration? p.name = some d

/-- The first element of this name. -/
def FirstNamed (name : String) (elements : List Specifier) (e : Specifier) : Prop :=
  ∃ before after, elements = before ++ e :: after ∧ e.name = name ∧ ∀ x ∈ before, x.name ≠ name

/-- The first import with an element of this local name, and the first such element of it. -/
def FirstImport (name : String) (imports : List Import) (i : Import) (e : Specifier) : Prop :=
  ∃ before after, imports = before ++ i :: after ∧
    (∀ j ∈ before, ∀ x ∈ j.elements, x.name ≠ name) ∧ FirstNamed name i.elements e

/-- One hop: where a name leads to from a place that does not declare it. -/
inductive Registry.Hop (r : Registry) (remap : String → String) : Place → Place → Prop
  /-- The first import that binds the name, up to its type arguments, leads to the exports of
      the module it names, once remapped. -/
  | imported {s : SourceUnit} {name : String} {i : Import} {e : Specifier} {u : ModuleUnit} :
      name ≠ "" → ¬ Place.IsHit ⟨.source s, name, .imports⟩ →
      FirstImport (withoutTypeArgs name) s.imports i e →
      r.lookup (remap (ModulePath.target s.path i.specifier)) = some u →
      Hop r remap ⟨.source s, name, .imports⟩ ⟨u, e.sourceName, .exports⟩
  /-- An export of everything in a module leads to this module under the same name. -/
  | everything {s : SourceUnit} {name : String} {x : Export} {m : String} {u : ModuleUnit} :
      name ≠ "" → ¬ Place.IsHit ⟨.source s, name, .exports⟩ →
      x ∈ s.exports → x.clause = none → x.specifier = some m →
      r.lookup (ModulePath.target s.path m) = some u →
      Hop r remap ⟨.source s, name, .exports⟩ ⟨u, name, .exports⟩
  /-- An export of elements of a module leads to this module under the name that the first
      element of this public name has there. -/
  | elementOf {s : SourceUnit} {name : String} {x : Export} {es : List Specifier}
      {e : Specifier} {m : String} {u : ModuleUnit} :
      name ≠ "" → ¬ Place.IsHit ⟨.source s, name, .exports⟩ →
      x ∈ s.exports → x.clause = some (.named es) → FirstNamed name es e →
      x.specifier = some m → r.lookup (ModulePath.target s.path m) = some u →
      Hop r remap ⟨.source s, name, .exports⟩ ⟨u, e.sourceName, .exports⟩
  /-- An export of elements without a module leads back to the same unit, to its declarations
      and imports. -/
  | ownElement {s : SourceUnit} {name : String} {x : Export} {es : List Specifier}
      {e : Specifier} :
      name ≠ "" → ¬ Place.IsHit ⟨.source s, name, .exports⟩ →
      x ∈ s.exports → x.clause = some (.named es) → FirstNamed name es e →
      x.specifier = none →
      Hop r remap ⟨.source s, name, .exports⟩ ⟨.source s, e.sourceName, .imports⟩

/-- Hops lead from one place to another. -/
def Registry.HopsTo (r : Registry) (remap : String → String) : Place → Place → Prop :=
  Relation.ReflTransGen (r.Hop remap)

/-- Searching a list for a name gives the first element of this name. -/
theorem find?_named_iff {name : String} {elements : List Specifier} {e : Specifier} :
    elements.find? (·.name == name) = some e ↔ FirstNamed name elements e := by
  rw [List.find?_eq_some_iff_append]
  constructor
  · rintro ⟨he, before, after, heq, hbefore⟩
    exact ⟨before, after, heq, by simpa using he, fun x hx => by simpa using hbefore x hx⟩
  · rintro ⟨before, after, heq, he, hbefore⟩
    exact ⟨by simpa using he, before, after, heq, fun x hx => by simpa using hbefore x hx⟩

/-- Searching the imports of a module gives the first import that binds the name. -/
theorem importOf?_iff {s : SourceUnit} {name : String} {i : Import} {e : Specifier} :
    s.importOf? name = some (i, e) ↔ FirstImport name s.imports i e := by
  unfold SourceUnit.importOf?
  rw [List.findSome?_eq_some_iff]
  constructor
  · rintro ⟨before, j, after, heq, hj, hbefore⟩
    obtain ⟨e', he', hpair⟩ := Option.map_eq_some_iff.mp hj
    obtain ⟨rfl, rfl⟩ := Prod.mk.inj hpair
    refine ⟨before, after, heq, ?_, find?_named_iff.mp he'⟩
    intro k hk x hx
    have hnone := List.find?_eq_none.mp (Option.map_eq_none_iff.mp (hbefore k hk)) x hx
    simpa using hnone
  · rintro ⟨before, after, heq, hbefore, he⟩
    refine ⟨before, i, after, heq, ?_, ?_⟩
    · rw [find?_named_iff.mpr he]
      rfl
    · intro k hk
      rw [Option.map_eq_none_iff, List.find?_eq_none]
      intro x hx
      simpa using hbefore k hk x hx

namespace Registry

variable {r : Registry} {remap : String → String}

/-- A place is a hit if its unit declares the name. -/
theorem isHit_iff {p : Place} : p.IsHit ↔ ∃ d, p.hit? = some d := by
  unfold Place.IsHit Place.hit?
  constructor
  · rintro ⟨hne, d, hd⟩
    exact ⟨⟨p.unit, d⟩, by rw [if_neg hne, hd]; rfl⟩
  · rintro ⟨d, hd⟩
    by_cases hne : p.name = ""
    · rw [if_pos hne] at hd
      exact nomatch hd
    · rw [if_neg hne] at hd
      obtain ⟨d', hd', -⟩ := Option.map_eq_some_iff.mp hd
      exact ⟨hne, d', hd'⟩

/-- Where it is no hit, there is no declaration to give. -/
theorem hit?_eq_none_iff {p : Place} : p.hit? = none ↔ ¬ p.IsHit := by
  rw [isHit_iff]
  cases p.hit? with
  | none => simp
  | some d => simp

/-- The hop of an import leads to the exports of a module that is registered. -/
theorem importHop?_iff {s : SourceUnit} {name : String} {q : Place} :
    r.importHop? remap s name = some q ↔
      ∃ i e u, FirstImport (withoutTypeArgs name) s.imports i e ∧
        r.lookup (remap (ModulePath.target s.path i.specifier)) = some u ∧
        q = ⟨u, e.sourceName, .exports⟩ := by
  unfold importHop?
  rw [Option.bind_eq_some_iff]
  constructor
  · rintro ⟨⟨i, e⟩, hie, hmap⟩
    obtain ⟨u, hu, rfl⟩ := Option.map_eq_some_iff.mp hmap
    exact ⟨i, e, u, importOf?_iff.mp hie, hu, rfl⟩
  · rintro ⟨i, e, u, hie, hu, rfl⟩
    exact ⟨(i, e), importOf?_iff.mpr hie, Option.map_eq_some_iff.mpr ⟨u, hu, rfl⟩⟩

/-- An export leads on exactly as the three kinds of hops from exports say. -/
theorem exportHop?_iff {s : SourceUnit} {name : String} {x : Export} {q : Place} :
    r.exportHop? s name x = some q ↔
      (x.clause = none ∧ ∃ m u, x.specifier = some m ∧
        r.lookup (ModulePath.target s.path m) = some u ∧ q = ⟨u, name, .exports⟩) ∨
      (∃ es e, x.clause = some (.named es) ∧ FirstNamed name es e ∧
        ((∃ m u, x.specifier = some m ∧ r.lookup (ModulePath.target s.path m) = some u ∧
            q = ⟨u, e.sourceName, .exports⟩) ∨
          (x.specifier = none ∧ q = ⟨.source s, e.sourceName, .imports⟩))) := by
  unfold exportHop? Export.localName?
  cases hc : x.clause with
  | none =>
      cases hm : x.specifier with
      | none => simp
      | some m => simp [eq_comm]
  | some clause =>
      cases clause with
      | whole name' => simp
      | named es =>
          cases hf : es.find? (·.name == name) with
          | none =>
              have hno : ∀ e, ¬ FirstNamed name es e := by
                intro e he
                rw [find?_named_iff.mpr he] at hf
                exact nomatch hf
              simp [hf, hno]
          | some e =>
              have he : ∀ e', FirstNamed name es e' ↔ e' = e := by
                intro e'
                rw [← find?_named_iff, hf, Option.some.injEq, eq_comm]
              cases hm : x.specifier with
              | none => simp [hf, he, eq_comm]
              | some m => simp [hf, he, eq_comm]

/-- From the imports of a module at most one hop leads on. -/
theorem hops_imports {s : SourceUnit} {name : String} (h : name ≠ "") :
    r.hops remap ⟨.source s, name, .imports⟩ = (r.importHop? remap s name).toList := if_neg h

/-- From its exports, one hop leads on for each export that has the name. -/
theorem hops_exports {s : SourceUnit} {name : String} (h : name ≠ "") :
    r.hops remap ⟨.source s, name, .exports⟩ = s.exports.filterMap (r.exportHop? s name) :=
  if_neg h

/-- Each of them comes from one export. -/
theorem mem_hops_exports {s : SourceUnit} {name : String} {q : Place} (h : name ≠ "") :
    q ∈ r.hops remap ⟨.source s, name, .exports⟩ ↔
      ∃ x ∈ s.exports, r.exportHop? s name x = some q := by
  rw [hops_exports h, List.mem_filterMap]

/-- Hops are the edges of the graph that the search goes over. -/
theorem hop_iff_leads {p q : Place} : r.Hop remap p q ↔ (r.places remap).Leads p q := by
  show r.Hop remap p q ↔ (p.name == "") = false ∧ p.hit? = none ∧ q ∈ r.hops remap p
  rw [hit?_eq_none_iff, beq_eq_false_iff_ne]
  constructor
  · intro h
    cases h with
    | imported hne hhit hi hu =>
        refine ⟨hne, hhit, ?_⟩
        rw [hops_imports hne, Option.mem_toList]
        exact importHop?_iff.mpr ⟨_, _, _, hi, hu, rfl⟩
    | everything hne hhit hx hc hm hu =>
        refine ⟨hne, hhit, (mem_hops_exports hne).mpr ⟨_, hx, exportHop?_iff.mpr ?_⟩⟩
        exact Or.inl ⟨hc, _, _, hm, hu, rfl⟩
    | elementOf hne hhit hx hc he hm hu =>
        refine ⟨hne, hhit, (mem_hops_exports hne).mpr ⟨_, hx, exportHop?_iff.mpr ?_⟩⟩
        exact Or.inr ⟨_, _, hc, he, Or.inl ⟨_, _, hm, hu, rfl⟩⟩
    | ownElement hne hhit hx hc he hm =>
        refine ⟨hne, hhit, (mem_hops_exports hne).mpr ⟨_, hx, exportHop?_iff.mpr ?_⟩⟩
        exact Or.inr ⟨_, _, hc, he, Or.inr ⟨hm, rfl⟩⟩
  · obtain ⟨unit, name, mode⟩ := p
    rintro ⟨hne, hhit, hq⟩
    cases unit with
    | ambient n => exact nomatch hq
    | source s =>
        cases mode with
        | imports =>
            rw [hops_imports hne, Option.mem_toList] at hq
            obtain ⟨i, e, u, hi, hu, rfl⟩ := importHop?_iff.mp hq
            exact .imported hne hhit hi hu
        | exports =>
            obtain ⟨x, hx, hhop⟩ := (mem_hops_exports hne).mp hq
            rcases exportHop?_iff.mp hhop with ⟨hc, m, u, hm, hu, rfl⟩ |
              ⟨es, e, hc, he, ⟨m, u, hm, hu, rfl⟩ | ⟨hm, rfl⟩⟩
            · exact .everything hne hhit hx hc hm hu
            · exact .elementOf hne hhit hx hc he hm hu
            · exact .ownElement hne hhit hx hc he hm

/-- Among the imports of a module, a name leads to one place at most. -/
theorem Hop.unique_of_imports {p q q' : Place} (hmode : p.mode = .imports)
    (h : r.Hop remap p q) (h' : r.Hop remap p q') : q = q' := by
  have hq : q ∈ r.hops remap p := (hop_iff_leads.mp h).2.2
  have hq' : q' ∈ r.hops remap p := (hop_iff_leads.mp h').2.2
  cases h with
  | imported hne hhit hi hu =>
      rw [hops_imports hne, Option.mem_toList] at hq hq'
      exact Option.some.inj (hq.symm.trans hq')
  | everything => exact nomatch hmode
  | elementOf => exact nomatch hmode
  | ownElement => exact nomatch hmode

/-- The hops, statement by statement, are the edges of the search. -/
theorem hopsTo_iff_reaches {p q : Place} : r.HopsTo remap p q ↔ (r.places remap).Reaches p q := by
  have h : r.Hop remap = (r.places remap).Leads := by
    funext p q
    exact propext hop_iff_leads
  unfold HopsTo SearchGraph.Reaches
  rw [h]

-- ── Hops stay within finitely many places ────────────────────────────────────────

/-- An import leads to a name that is an element of some statement. -/
theorem mem_elementNames_of_import {s : SourceUnit} {name : String} {i : Import} {e : Specifier}
    (hs : .source s ∈ r.units) (h : FirstImport name s.imports i e) :
    e.sourceName ∈ r.elementNames := by
  obtain ⟨before, after, hi, -, before', after', he, -⟩ := h
  refine List.mem_flatMap.mpr ⟨.source s, hs, List.mem_append.mpr (Or.inl ?_)⟩
  refine List.mem_flatMap.mpr ⟨i, by rw [hi]; simp, ?_⟩
  exact List.mem_map.mpr ⟨e, by rw [he]; simp, rfl⟩

theorem mem_elementNames_of_export {s : SourceUnit} {name : String} {x : Export}
    {es : List Specifier} {e : Specifier} (hs : .source s ∈ r.units) (hx : x ∈ s.exports)
    (hc : x.clause = some (.named es)) (h : FirstNamed name es e) :
    e.sourceName ∈ r.elementNames := by
  obtain ⟨before, after, he, -⟩ := h
  refine List.mem_flatMap.mpr ⟨.source s, hs, List.mem_append.mpr (Or.inr ?_)⟩
  refine List.mem_flatMap.mpr ⟨x, hx, ?_⟩
  rw [hc]
  exact List.mem_map.mpr ⟨e, by rw [he]; simp, rfl⟩

/-- A registered unit, and the name at the start or one that an element brings in. -/
def Within (r : Registry) (start : String) (p : Place) : Prop :=
  p.unit ∈ r.units ∧ p.name ∈ start :: r.elementNames

/-- A hop stays within registered units and known names. -/
theorem Hop.within {start : String} {p q : Place} (h : r.Hop remap p q) (hp : r.Within start p) :
    r.Within start q := by
  obtain ⟨hunit, hname⟩ := hp
  cases h with
  | imported _ _ hi hu =>
      exact ⟨mem_units_of_lookup hu, List.mem_cons_of_mem _ (mem_elementNames_of_import hunit hi)⟩
  | everything _ _ _ _ _ hu => exact ⟨mem_units_of_lookup hu, hname⟩
  | elementOf _ _ hx hc he _ hu =>
      exact ⟨mem_units_of_lookup hu,
        List.mem_cons_of_mem _ (mem_elementNames_of_export hunit hx hc he)⟩
  | ownElement _ _ hx hc he _ =>
      exact ⟨hunit, List.mem_cons_of_mem _ (mem_elementNames_of_export hunit hx hc he)⟩

/-- The marks of the places that a search can come to. -/
def placeMarks (r : Registry) (start : String) : Finset (String × String × SearchMode) :=
  (r.units.map ModuleUnit.key).toFinset ×ˢ
    (start :: r.elementNames).toFinset ×ˢ {SearchMode.imports, SearchMode.exports}

/-- The budget covers all marks of places that a search can come to. -/
theorem card_placeMarks_lt (r : Registry) (start : String) :
    (r.placeMarks start).card < r.searchBudget := by
  have hkeys := List.toFinset_card_le (r.units.map ModuleUnit.key)
  have hnames := List.toFinset_card_le (start :: r.elementNames)
  have hmodes : ({SearchMode.imports, SearchMode.exports} : Finset SearchMode).card = 2 := rfl
  rw [List.length_map] at hkeys
  rw [List.length_cons] at hnames
  rw [placeMarks, Finset.card_product, Finset.card_product, hmodes, searchBudget]
  have hmul := Nat.mul_le_mul hkeys (Nat.mul_le_mul_right 2 hnames)
  have hcomm : r.units.length * ((r.elementNames.length + 1) * 2) =
      2 * r.units.length * (r.elementNames.length + 1) := by
    rw [Nat.mul_comm (r.elementNames.length + 1) 2, ← Nat.mul_assoc, Nat.mul_comm _ 2]
  omega

/-- In a coherent registry, a search is confined to finitely many places that their marks tell
    apart. -/
theorem arena_places (hc : r.Coherent) (remap : String → String) (start : String) :
    (r.places remap).Arena (r.Within start) (r.placeMarks start) := by
  refine ⟨?_, ?_, ?_⟩
  · intro p q hp hstep
    exact (hop_iff_leads.mpr hstep).within hp
  · rintro ⟨unit, name, mode⟩ ⟨hunit, hname⟩
    refine Finset.mem_product.mpr ⟨?_, Finset.mem_product.mpr ⟨?_, ?_⟩⟩
    · exact List.mem_toFinset.mpr (List.mem_map.mpr ⟨unit, hunit, rfl⟩)
    · exact List.mem_toFinset.mpr hname
    · cases mode with
      | imports => exact Finset.mem_insert_self _ _
      | exports => exact Finset.mem_insert_of_mem (Finset.mem_singleton_self _)
  · rintro ⟨unit, name, mode⟩ ⟨unit', name', mode'⟩ ⟨hunit, -⟩ ⟨hunit', -⟩ hmark
    obtain ⟨hkey, hrest⟩ := Prod.mk.inj hmark
    obtain ⟨rfl, rfl⟩ := Prod.mk.inj hrest
    obtain rfl := hc.eq_of_key_eq hunit hunit' hkey
    rfl

theorem within_start {u : ModuleUnit} (hu : u ∈ r.units) (name : String) (mode : SearchMode) :
    r.Within name ⟨u, name, mode⟩ := ⟨hu, List.mem_cons_self ..⟩

theorem HopsTo.within {start : String} {p q : Place} (h : r.HopsTo remap p q)
    (hp : r.Within start p) : r.Within start q := by
  induction h with
  | refl => exact hp
  | tail _ hstep ih => exact hstep.within ih

-- ── What resolving gives ─────────────────────────────────────────────────────────

/-- Nothing has the empty name. -/
theorem resolve_empty (r : Registry) (remap : String → String) (u : ModuleUnit)
    (mode : SearchMode) : r.resolve remap u "" mode = none := by
  rw [resolve, searchBudget, SearchGraph.guarded_skip (Or.inl rfl)]

/-- What a name resolves to is declared at a place that hops lead to. -/
theorem hit_of_resolve {u : ModuleUnit} (hu : u ∈ r.units) {name : String} {mode : SearchMode}
    {d : Resolved} (hd : r.resolve remap u name mode = some d) :
    ∃ q, r.HopsTo remap ⟨u, name, mode⟩ q ∧ q.unit ∈ r.units ∧ q.IsHit ∧
      d.unit = q.unit ∧ q.unit.declaration? q.name = some d.declaration := by
  obtain ⟨q, hq, -, hhit⟩ := SearchGraph.reaches_of_guarded _ _ _ d hd
  have hq' := hopsTo_iff_reaches.mpr hq
  have hhit : q.hit? = some d := hhit
  have hishit : q.IsHit := isHit_iff.mpr ⟨d, hhit⟩
  rw [Place.hit?, if_neg hishit.1] at hhit
  obtain ⟨d', hd', rfl⟩ := Option.map_eq_some_iff.mp hhit
  exact ⟨q, hq', (hq'.within (within_start hu name mode)).1, hishit, rfl, hd'⟩

/-- A name resolves to something if hops lead to a place that declares its name. -/
theorem resolve_of_hopsTo (hc : r.Coherent) {u : ModuleUnit} (hu : u ∈ r.units) {name : String}
    {mode : SearchMode} {q : Place} (hq : r.HopsTo remap ⟨u, name, mode⟩ q) (hhit : q.IsHit) :
    ∃ d, r.resolve remap u name mode = some d := by
  cases hres : r.resolve remap u name mode with
  | some d => exact ⟨d, rfl⟩
  | none =>
      have hdead : (r.places remap).dead q = false := by simpa [places] using hhit.1
      have hnone : q.hit? = none :=
        SearchGraph.not_reaches_of_guarded (arena_places hc remap name)
          (within_start hu name mode) (card_placeMarks_lt r name) hres
          (hopsTo_iff_reaches.mp hq) hdead
      exact absurd hhit (hit?_eq_none_iff.mp hnone)

/-- **Resolving is sound and complete.**  In a registry that calls can build, what a name
    resolves to from a registered unit is declared at a place that hops lead to; and it resolves
    to something whenever hops lead to a place that declares its name.  Among the imports of a
    module, a name has one hop at most. -/
theorem resolve_sound_complete (hr : r.Reachable) (remap : String → String) {u : ModuleUnit}
    (hu : u ∈ r.units) (name : String) (mode : SearchMode) :
    (∀ d, r.resolve remap u name mode = some d →
      ∃ q, r.HopsTo remap ⟨u, name, mode⟩ q ∧ q.unit ∈ r.units ∧ q.IsHit ∧
        d.unit = q.unit ∧ q.unit.declaration? q.name = some d.declaration) ∧
    ((∃ q, r.HopsTo remap ⟨u, name, mode⟩ q ∧ q.IsHit) →
      ∃ d, r.resolve remap u name mode = some d) ∧
    (∀ p q q', p.mode = .imports → r.Hop remap p q → r.Hop remap p q' → q = q') := by
  refine ⟨fun d hd => hit_of_resolve hu hd, ?_,
    fun p q q' hmode h h' => h.unique_of_imports hmode h'⟩
  rintro ⟨q, hq, hhit⟩
  exact resolve_of_hopsTo hr.coherent hu hq hhit

/-- A statement that passes everything in a module on. -/
def passOn (module : String) : Statement := .exporting ⟨none, some module, false, default⟩

/-- A statement that imports one name, which may rename it. -/
def importOne (specifier name : String) (renamed : Option String) : Statement :=
  .importing ⟨specifier, some ⟨none, some (.named [⟨name, renamed, false⟩])⟩, false, default⟩

/-- A class with nothing but a name. -/
def bareClass (name : String) : Declaration := .ofClass ⟨some name, [], none, [], [], {}, default⟩

/-- A module that passes on two others. -/
def hubModule : SourceUnit := ⟨"hub", [passOn "./left", passOn "./right"]⟩

/-- The second module that the hub passes on. -/
def rightModule : SourceUnit := ⟨"right", [passOn "./bare", passOn "./core"]⟩

/-- A module with a class, which leads back to the hub. -/
def coreModule : SourceUnit := ⟨"core", [passOn "./hub", .declaration (bareClass "Base")]⟩

/-- Both modules behind the hub pass on an empty one, and the second also one with a class. -/
def diamond : Registry :=
  afterCalls [.unit hubModule, .unit ⟨"left", [passOn "./bare"]⟩, .unit rightModule,
    .unit ⟨"bare", []⟩, .unit coreModule]

theorem reachable_diamond : diamond.Reachable := ⟨_, rfl⟩

theorem hub_mem_diamond : .source hubModule ∈ diamond.units := List.mem_cons_self ..

/-- The class is reached through the second of the two modules that the hub passes on. -/
theorem hub_hopsTo_core :
    diamond.HopsTo id ⟨.source hubModule, "Base", .exports⟩
      ⟨.source coreModule, "Base", .exports⟩ := by
  have h1 : diamond.Hop id ⟨.source hubModule, "Base", .exports⟩
      ⟨.source rightModule, "Base", .exports⟩ :=
    hop_iff_leads.mpr ⟨rfl, rfl, .tail _ (.head _)⟩
  have h2 : diamond.Hop id ⟨.source rightModule, "Base", .exports⟩
      ⟨.source coreModule, "Base", .exports⟩ :=
    hop_iff_leads.mpr ⟨rfl, rfl, .tail _ (.head _)⟩
  exact .tail (.single h1) h2

/-- The class behind the hub is found, although the places form a cycle and a diamond. -/
theorem diamond_resolves_base :
    diamond.Reachable ∧ .source hubModule ∈ diamond.units ∧
      ∃ d, diamond.resolve id (.source hubModule) "Base" .exports = some d :=
  ⟨reachable_diamond, hub_mem_diamond,
    (resolve_sound_complete reachable_diamond id hub_mem_diamond "Base" .exports).2.1
      ⟨_, hub_hopsTo_core, isHit_iff.mpr ⟨⟨.source coreModule, bareClass "Base"⟩, rfl⟩⟩⟩

/-- **Remembering places changes no answer.**  In a registry that calls can build, where the
    search that remembers nothing has an answer for a name seen from a registered unit, with
    some fuel, the name resolves to exactly this answer. -/
theorem resolve_of_plain (hr : r.Reachable) (remap : String → String) {u : ModuleUnit}
    (hu : u ∈ r.units) (name : String) (mode : SearchMode) {n : Nat} {answer : Option Resolved}
    (h : (r.places remap).plain n ⟨u, name, mode⟩ = some answer) :
    r.resolve remap u name mode = answer :=
  SearchGraph.guarded_of_plain (arena_places hr.coherent remap name) (within_start hu name mode)
    (card_placeMarks_lt r name) h

/-- The search that remembers nothing looks at the empty module twice, and both searches give the
    class behind it. -/
theorem diamond_answers_base :
    (diamond.places id).plain 4 ⟨.source hubModule, "Base", .exports⟩ =
        some (some ⟨.source coreModule, bareClass "Base"⟩) ∧
      diamond.resolve id (.source hubModule) "Base" .exports =
        some ⟨.source coreModule, bareClass "Base"⟩ :=
  ⟨rfl, resolve_of_plain reachable_diamond id hub_mem_diamond "Base" .exports (n := 4) rfl⟩

end Registry

end DeclAtlas
